import Chip8.CommandLine
import Mathlib.Data.List.TakeWhile

/-!
# Every setting can be said on the command line

A `Request` is what somebody wants the command line to ask for; the rate and the seed may be left
unsaid.  It comes down to a list of parts: the path, the numbers and the switches.  `Says` gives the
words for one part, of which a number has several: joined to its name by an equals sign or behind
it, with or without a plus sign and zeros in front.  `Spells` puts the words of several parts one
after another.

Reading takes the words from left to right and looks at a path or a number only when the next
argument comes, so the reader's state tells less than what has been said.  What has been said is
what the state settles to: `Reading.Ready` relates a state to that draft, and every part that is
said adds itself to the draft, in whatever order they come.

* `Argument.ofWord_long`, `Argument.ofWord_joined`, `Argument.ofWord_plain` : the forms of the words
  that are written here;
* `Reading.Ready.says` : the words of a part add it to the draft, if the draft has nothing in its
  place yet;
* `Reading.Ready.spells` : so do the words of many parts, if no two of them go to the same place;
* **`read_spelled`** : the parts of a request in any order, each in any spelling, are read as the
  settings that are wanted; the path may also come last behind two dashes, and is then any text.
-/

namespace Chip8

namespace Argument

/-! ### The forms of words -/

variable {name : String}

theorem ofLongText_of_not_mem {text : List Char} (h : '=' ∉ text) :
    ofLongText text = long (String.ofList text) none := by
  have hname : ∀ c ∈ text, decide (c ≠ '=') = true :=
    fun c hc => decide_eq_true fun e => h (e ▸ hc)
  rw [ofLongText, List.takeWhile_eq_self_iff.2 hname, List.dropWhile_eq_nil_iff.2 hname]

theorem ofLongText_append {text : List Char} (h : '=' ∉ text) (value : List Char) :
    ofLongText (text ++ '=' :: value) =
      long (String.ofList text) (some (String.ofList value)) := by
  have hname : ∀ c ∈ text, decide (c ≠ '=') = true :=
    fun c hc => decide_eq_true fun e => h (e ▸ hc)
  rw [ofLongText, List.takeWhile_append_of_pos hname, List.dropWhile_append_of_pos hname]
  simp

theorem ofWord_of_toList {word : String} {text : List Char} (hne : text ≠ [])
    (h : word.toList = '-' :: '-' :: text) : ofWord word = ofLongText text := by
  obtain ⟨c, rest, rfl⟩ := List.exists_cons_of_ne_nil hne
  rw [ofWord, h]
  rfl

theorem ofWord_long (hne : name ≠ "") (h : '=' ∉ name.toList) :
    ofWord ("--" ++ name) = long name none := by
  have hword : ("--" ++ name).toList = '-' :: '-' :: name.toList := String.toList_append
  rw [ofWord_of_toList (mt String.toList_eq_nil_iff.1 hne) hword, ofLongText_of_not_mem h,
    String.ofList_toList]

theorem ofWord_joined (h : '=' ∉ name.toList) (value : String) :
    ofWord ("--" ++ name ++ "=" ++ value) = long name (some value) := by
  have hword : ("--" ++ name ++ "=" ++ value).toList =
      '-' :: '-' :: (name.toList ++ '=' :: value.toList) := by
    simp only [String.toList_append, List.append_assoc]
    rfl
  rw [ofWord_of_toList (List.append_ne_nil_of_right_ne_nil _ (List.cons_ne_nil _ _)) hword,
    ofLongText_append h, String.ofList_toList, String.ofList_toList]

/-- A word without a dash in front is plain, and so is a dash alone. -/
theorem ofWord_plain {word : String} (h : word = "-" ∨ word.toList.head? ≠ some '-') :
    ofWord word = plain word := by
  obtain rfl | h := h
  · rfl
  · rw [ofWord]
    cases hword : word.toList with
    | nil => rfl
    | cons c rest =>
      have hc : c ≠ '-' := fun e => h (by rw [hword, e]; rfl)
      simp [hc]

end Argument

namespace LongName

theorem ofText?_text (name : LongName) : ofText? name.text = some name := by
  cases name with
  | number name => cases name <;> rfl
  | switch name => cases name <;> rfl
  | help => rfl
  | version => rfl

/-- All names are long enough for a word of their own and have no equals sign. -/
theorem text_ne_and_not_mem (name : LongName) : name.text ≠ "" ∧ '=' ∉ name.text.toList := by
  cases name with
  | number name => cases name <;> decide
  | switch name => cases name <;> decide
  | help => decide
  | version => decide

theorem ofWord_text (name : LongName) :
    Argument.ofWord ("--" ++ name.text) = .long name.text none :=
  Argument.ofWord_long name.text_ne_and_not_mem.1 name.text_ne_and_not_mem.2

theorem ofWord_text_joined (name : LongName) (value : String) :
    Argument.ofWord ("--" ++ name.text ++ "=" ++ value) = .long name.text (some value) :=
  Argument.ofWord_joined name.text_ne_and_not_mem.2 value

end LongName

namespace CommandLine

/-! ### What is said, and how -/

/-- One thing that a command line says. -/
inductive Part where
  /-- The path of the program. -/
  | path (text : String)
  /-- A number, under its name. -/
  | number (name : NumberName) (n : UInt64)
  /-- A switch that is on. -/
  | switch (name : Switch)
  deriving DecidableEq

/-- The place of a part: a command line says no more than one thing for each name, and has one
path, which has no name. -/
def Part.place : Part → Option LongName
  | path _ => none
  | number name _ => some (.number name)
  | switch name => some (.switch name)

/-- Whether a text is plain among arguments. -/
def IsPlain (text : String) : Prop :=
  text = "-" ∨ text.toList.head? ≠ some '-'

theorem isPlain_numeral (plus : Bool) (zeros : Nat) (n : UInt64) :
    IsPlain (Text.numeral plus zeros n) := by
  refine .inr fun hdash => ?_
  obtain h | h := Text.mem_numeral (List.mem_of_head? hdash)
  · exact absurd h (by decide)
  · exact absurd h (by decide)

/-- The words that say a part. -/
inductive Says : Part → List String → Prop
  /-- A path as it is, if it is not taken for an argument. -/
  | path {text : String} (hne : text ≠ "") (h : IsPlain text) : Says (.path text) [text]
  /-- A number in the same word as its name. -/
  | joined (name : NumberName) (plus : Bool) (zeros : Nat) (n : UInt64) :
    Says (.number name n) ["--" ++ name.text ++ "=" ++ Text.numeral plus zeros n]
  /-- A number in a word behind its name. -/
  | behind (name : NumberName) (plus : Bool) (zeros : Nat) (n : UInt64) :
    Says (.number name n) ["--" ++ name.text, Text.numeral plus zeros n]
  /-- A switch by its name. -/
  | switch (name : Switch) : Says (.switch name) ["--" ++ name.text]

/-- The words that say several parts, one after another. -/
inductive Spells : List Part → List String → Prop
  /-- Nothing is said. -/
  | nil : Spells [] []
  /-- One part, and then the others. -/
  | cons {p : Part} {parts : List Part} {first words : List String} (h : Says p first)
    (hs : Spells parts words) : Spells (p :: parts) (first ++ words)

/-- What somebody wants a command line to ask for. -/
structure Request where
  /-- The path of the program. -/
  path : String
  /-- The rate; without one it is the usual rate. -/
  rate : Option UInt64
  /-- Whether to stop at a word that is no instruction. -/
  haltOnUnsupported : Bool
  /-- The seed, if there is one. -/
  seed : Option UInt64
  /-- The dialect. -/
  dialect : Dialect
  deriving DecidableEq

namespace Request

/-- The number wanted for a name. -/
def number? (r : Request) : NumberName → Option UInt64
  | .rate => r.rate
  | .seed => r.seed

/-- Whether a switch is to be on. -/
def wants (r : Request) : Switch → Bool
  | .haltOnUnsupported => r.haltOnUnsupported
  | .shiftReadsVy => r.dialect.shiftReadsVy
  | .logicResetsFlag => r.dialect.logicResetsFlag
  | .loadStoreAdvancesIndex => r.dialect.loadStoreAdvancesIndex

/-- The switches to be on, each once. -/
def switches (r : Request) : List Switch :=
  [.haltOnUnsupported, .shiftReadsVy, .logicResetsFlag, .loadStoreAdvancesIndex].filter r.wants

/-- All parts but the path. -/
def options (r : Request) : List Part :=
  r.rate.toList.map (.number .rate) ++ (r.seed.toList.map (.number .seed) ++
    r.switches.map .switch)

/-- The settings that are wanted. -/
def settings (r : Request) : Settings where
  path := r.path
  rate := r.rate.getD 700
  haltOnUnsupported := r.haltOnUnsupported
  seed := r.seed
  dialect := r.dialect

variable {r : Request}

theorem path_not_mem_options {text : String} : .path text ∉ r.options := by
  simp [options]

theorem number_mem_options {name : NumberName} {n : UInt64} :
    .number name n ∈ r.options ↔ r.number? name = some n := by
  cases name <;> simp [options, number?]

theorem switch_mem_options {name : Switch} : .switch name ∈ r.options ↔ r.wants name = true := by
  cases name <;> simp [options, switches]

theorem nodup_places (r : Request) :
    ((Part.path r.path :: r.options).map Part.place).Nodup := by
  have hnumber : ∀ (name : NumberName) (n : Option UInt64),
      ((n.toList.map (Part.number name)).map Part.place).Sublist [some (.number name)] := by
    intro name n
    cases n with
    | none => exact List.nil_sublist _
    | some n => exact List.Sublist.refl _
  have hswitch : ((r.switches.map Part.switch).map Part.place).Sublist
      [some (.switch .haltOnUnsupported), some (.switch .shiftReadsVy),
        some (.switch .logicResetsFlag), some (.switch .loadStoreAdvancesIndex)] :=
    (List.filter_sublist.map Part.switch).map Part.place
  have hoptions := (hnumber .rate r.rate).append ((hnumber .seed r.seed).append hswitch)
  rw [List.map_cons, options, List.map_append, List.map_append]
  exact (hoptions.cons_cons none).nodup (by decide)

end Request

/-! ### Drafts, part by part -/

namespace Draft

/-- Whether a part has been settled. -/
def Has (d : Draft) : Part → Prop
  | .path text => d.path = some text
  | .number name n => d.number? name = some n
  | .switch name => name ∈ d.switches

/-- Whether nothing has been settled in the place of a part. -/
def Lacks (d : Draft) : Part → Prop
  | .path _ => d.path = none
  | .number name _ => d.number? name = none
  | .switch name => name ∉ d.switches

/-- The draft with one part more. -/
def add (d : Draft) : Part → Draft
  | .path text => { d with path := some text }
  | .number name n => d.setNumber n name
  | .switch name => { d with switches := name :: d.switches }

variable {d : Draft} {p q : Part}

theorem number?_setNumber (d : Draft) (n : UInt64) (name other : NumberName) :
    (d.setNumber n name).number? other = if other = name then some n else d.number? other := by
  cases name <;> cases other <;> rfl

theorem path_setNumber (d : Draft) (n : UInt64) (name : NumberName) :
    (d.setNumber n name).path = d.path := by
  cases name <;> rfl

theorem switches_setNumber (d : Draft) (n : UInt64) (name : NumberName) :
    (d.setNumber n name).switches = d.switches := by
  cases name <;> rfl

theorem has_add (h : d.Lacks p) : (d.add p).Has q ↔ q = p ∨ d.Has q := by
  cases p with
  | path text =>
    have hnone : d.path = none := h
    cases q with
    | path other => simp [Has, add, hnone, eq_comm]
    | number name n => cases name <;> simp [Has, add, number?]
    | switch name => simp [Has, add]
  | number name n =>
    have hnone : d.number? name = none := h
    cases q with
    | path text => simp [Has, add, path_setNumber]
    | number other m =>
      by_cases ho : other = name
      · subst ho
        simp [Has, add, number?_setNumber, hnone, eq_comm]
      · simp [Has, add, number?_setNumber, ho]
    | switch other => simp [Has, add, switches_setNumber]
  | switch name =>
    cases q with
    | path text => simp [Has, add]
    | number other n => cases other <;> simp [Has, add, number?]
    | switch other => simp [Has, add]

theorem lacks_add (h : d.Lacks q) (hne : q.place ≠ p.place) : (d.add p).Lacks q := by
  cases p with
  | path text =>
    cases q with
    | path other => exact absurd rfl hne
    | number name n => cases name <;> exact h
    | switch name => exact h
  | number name n =>
    cases q with
    | path text => exact (path_setNumber d n name).trans h
    | number other m =>
      have ho : other ≠ name := fun e => hne (congrArg (some ∘ LongName.number) e)
      rw [Lacks, add, number?_setNumber, if_neg ho]
      exact h
    | switch other =>
      rw [Lacks, add, switches_setNumber]
      exact h
  | switch name =>
    cases q with
    | path text => exact h
    | number other n => cases other <;> exact h
    | switch other =>
      have ho : other ≠ name := fun e => hne (congrArg (some ∘ LongName.switch) e)
      exact List.not_mem_cons_of_ne_of_not_mem ho h

theorem not_has_of_lacks (h : d.Lacks p) : ¬ d.Has p := by
  intro hhas
  cases p with
  | path text => exact absurd (Eq.trans (Eq.symm h) hhas) nofun
  | number name n => exact absurd (Eq.trans (Eq.symm h) hhas) nofun
  | switch name => exact h hhas

theorem lacks_empty (p : Part) : ({} : Draft).Lacks p := by
  cases p with
  | path text => rfl
  | number name n => cases name <;> rfl
  | switch name => exact List.not_mem_nil

theorem giveNumber_numeral {name : NumberName} {n : UInt64} (h : d.Lacks (.number name n))
    (plus : Bool) (zeros : Nat) :
    d.giveNumber name (Text.numeral plus zeros n) = .ok (d.add (.number name n)) := by
  have hnone : d.number? name = none := h
  rw [giveNumber, hnone, Text.readNumber?_numeral]
  rfl

theorem giveSwitch_of_lacks {name : Switch} (h : d.Lacks (.switch name)) :
    d.giveSwitch name = .ok (d.add (.switch name)) :=
  if_neg h

/-- A draft that has the parts of a request, and no others, comes to the settings wanted. -/
theorem settings_of_has {request : Request}
    (h : ∀ p, d.Has p ↔ p ∈ .path request.path :: request.options) :
    d.settings = .ok request.settings := by
  have hpath : d.path = some request.path := (h (.path request.path)).2 List.mem_cons_self
  have hnumber : ∀ name, d.number? name = request.number? name := fun name =>
    Option.ext fun n => (h (.number name n)).trans (by simp [Request.number_mem_options])
  have hrate : d.rate = request.rate := hnumber .rate
  have hseed : d.seed = request.seed := hnumber .seed
  have hswitch : ∀ name, decide (name ∈ d.switches) = request.wants name := by
    intro name
    rw [Bool.eq_iff_iff, decide_eq_true_iff]
    exact (h (.switch name)).trans (by simp [Request.switch_mem_options])
  simp only [settings, hpath, hrate, hseed, hswitch]
  rfl

end Draft

/-! ### What has been said so far -/

namespace Reading

variable {r : Reading} {d : Draft} {p : Part}

/-- What has been said so far is in a draft: the reader would settle to it, and it still knows
arguments from paths. -/
structure Ready (r : Reading) (d : Draft) : Prop where
  /-- What waits is settled without a problem. -/
  settle : r.settle = .ok d
  /-- No two dashes alone have been read. -/
  options : ¬ r.positionalOnly = true

theorem path_of_giveNumber {d d' : Draft} {name : NumberName} {text : String}
    (h : d.giveNumber name text = .ok d') : d'.path = d.path := by
  rw [Draft.giveNumber] at h
  split at h
  · cases h
  · split at h
    · cases h
      exact Draft.path_setNumber _ _ _
    · cases h

theorem hasPath_of_settle (h : r.settle = .ok d) : r.hasPath = d.path.isSome := by
  obtain ⟨draft, pending, positionalOnly⟩ := r
  rw [hasPath]
  cases pending with
  | none =>
    cases h
    exact Bool.or_false _
  | some waiting =>
    cases waiting with
    | path text =>
      simp only [settle] at h
      split at h <;> cases h
      exact Bool.or_true _
    | number name text =>
      cases text with
      | none => cases h
      | some text =>
        rw [path_of_giveNumber h]
        exact Bool.or_false _

theorem acceptPath_of_settle (h : r.settle = .ok d) (hnone : d.path = none) (word : String) :
    r.acceptPath word = .ok { r with draft := d, pending := some (.path word) } := by
  rw [acceptPath, hasPath_of_settle h, hnone, h]
  rfl

theorem settle_path {text : String} (hne : text ≠ "") (r : Reading) (d : Draft) :
    ({ r with draft := d, pending := some (.path text) } : Reading).settle =
      .ok (d.add (.path text)) := by
  rw [settle]
  exact if_neg (mt String.isEmpty_iff.1 hne)

/-- A reader that would settle without a problem waits for no number, so it takes a plain word for
the path. -/
theorem acceptPlain_of_settle (h : r.settle = .ok d) (word : String) :
    r.acceptPlain word = r.acceptPath word := by
  obtain ⟨draft, pending, positionalOnly⟩ := r
  cases pending with
  | none => rfl
  | some waiting =>
    cases waiting with
    | path text => rfl
    | number name text =>
      cases text with
      | none => cases h
      | some text => rfl

theorem Ready.accept_plain (hr : r.Ready d) {word : String} (h : IsPlain word) :
    r.accept word = r.acceptPlain word := by
  rw [accept, if_neg hr.options, Argument.ofWord_plain h]

theorem Ready.accept_number (hr : r.Ready d) (name : NumberName) :
    r.accept ("--" ++ name.text) =
      .ok { r with draft := d, pending := some (.number name none) } := by
  have hword : Argument.ofWord ("--" ++ name.text) = .long name.text none :=
    LongName.ofWord_text (.number name)
  have hname : LongName.ofText? name.text = some (.number name) :=
    LongName.ofText?_text (.number name)
  rw [accept, if_neg hr.options, hword]
  simp only [acceptLong, hname, hr.settle]
  rfl

theorem accept_value {name : NumberName} {word : String} (ho : ¬ r.positionalOnly = true)
    (hp : r.pending = some (.number name none)) (h : IsPlain word) :
    r.accept word = .ok { r with pending := some (.number name (some word)) } := by
  rw [accept, if_neg ho, Argument.ofWord_plain h]
  simp only [acceptPlain, hp]

theorem Ready.accept_joined (hr : r.Ready d) {name : NumberName} {n : UInt64}
    (hl : d.Lacks (.number name n)) (plus : Bool) (zeros : Nat) :
    r.accept ("--" ++ name.text ++ "=" ++ Text.numeral plus zeros n) =
      .ok { r with draft := d.add (.number name n), pending := none } := by
  have hword : Argument.ofWord ("--" ++ name.text ++ "=" ++ Text.numeral plus zeros n) =
      .long name.text (some (Text.numeral plus zeros n)) :=
    LongName.ofWord_text_joined (.number name) _
  have hname : LongName.ofText? name.text = some (.number name) :=
    LongName.ofText?_text (.number name)
  rw [accept, if_neg hr.options, hword]
  simp only [acceptLong, hname, hr.settle]
  show (d.giveNumber name _ >>= fun draft => _) = _
  rw [Draft.giveNumber_numeral hl]
  rfl

theorem Ready.accept_switch (hr : r.Ready d) {name : Switch} (hl : d.Lacks (.switch name)) :
    r.accept ("--" ++ name.text) =
      .ok { r with draft := d.add (.switch name), pending := none } := by
  have hword : Argument.ofWord ("--" ++ name.text) = .long name.text none :=
    LongName.ofWord_text (.switch name)
  have hname : LongName.ofText? name.text = some (.switch name) :=
    LongName.ofText?_text (.switch name)
  rw [accept, if_neg hr.options, hword]
  simp only [acceptLong, hname, hr.settle]
  show (d.giveSwitch name >>= fun draft => _) = _
  rw [Draft.giveSwitch_of_lacks hl]
  rfl

/-- **The words of a part add it to what has been said**, if nothing has been said in its place. -/
theorem Ready.says (hr : r.Ready d) (hl : d.Lacks p) {words : List String} (h : Says p words) :
    ∃ r', words.foldlM accept r = .ok r' ∧ r'.Ready (d.add p) := by
  cases h with
  | @path text hne h =>
    refine ⟨{ r with draft := d, pending := some (.path text) }, ?_, settle_path hne r d,
      hr.options⟩
    rw [List.foldlM_cons, hr.accept_plain h, acceptPlain_of_settle hr.settle,
      acceptPath_of_settle hr.settle hl]
    rfl
  | joined name plus zeros n =>
    refine ⟨{ r with draft := d.add (.number name n), pending := none }, ?_, rfl, hr.options⟩
    rw [List.foldlM_cons, hr.accept_joined hl]
    rfl
  | behind name plus zeros n =>
    let text := Text.numeral plus zeros n
    let waiting : Reading := { r with draft := d, pending := some (.number name none) }
    let given : Reading := { r with draft := d, pending := some (.number name (some text)) }
    have hvalue : waiting.accept text = .ok given :=
      accept_value hr.options rfl (isPlain_numeral plus zeros n)
    refine ⟨given, ?_, Draft.giveNumber_numeral hl plus zeros, hr.options⟩
    rw [List.foldlM_cons, hr.accept_number]
    show List.foldlM accept waiting [text] = _
    rw [List.foldlM_cons, hvalue]
    rfl
  | switch name =>
    refine ⟨{ r with draft := d.add (.switch name), pending := none }, ?_, rfl, hr.options⟩
    rw [List.foldlM_cons, hr.accept_switch hl]
    rfl

/-- **The words of many parts add them all**, whatever their order and their spelling, if no two of
them go to the same place. -/
theorem Ready.spells {parts : List Part} {words : List String} (hs : Spells parts words)
    (hn : (parts.map Part.place).Nodup) (hr : r.Ready d) (hl : ∀ p ∈ parts, d.Lacks p) :
    ∃ r' d', words.foldlM accept r = .ok r' ∧ r'.Ready d' ∧
      ∀ q, d'.Has q ↔ q ∈ parts ∨ d.Has q := by
  -- the places of the parts to come stay free while those before them are read
  induction hs generalizing r d with
  | nil => exact ⟨r, d, rfl, hr, fun q => by simp⟩
  | @cons p parts first words h _ ih =>
    obtain ⟨hp, hn⟩ := List.nodup_cons.1 hn
    have hfree : d.Lacks p := hl p List.mem_cons_self
    obtain ⟨r₁, hfirst, hr₁⟩ := hr.says hfree h
    have hlater : ∀ q ∈ parts, (d.add p).Lacks q := fun q hq =>
      Draft.lacks_add (hl q (List.mem_cons_of_mem p hq))
        fun e => hp (e ▸ List.mem_map_of_mem hq)
    obtain ⟨r', d', hwords, hr', hhas⟩ := ih hn hr₁ hlater
    refine ⟨r', d', ?_, hr', fun q => ?_⟩
    · rw [List.foldlM_append, hfirst]
      exact hwords
    · rw [hhas, Draft.has_add hfree, List.mem_cons, or_left_comm, or_assoc]

theorem exists_ready {parts : List Part} {words : List String} (hs : Spells parts words)
    (hn : (parts.map Part.place).Nodup) :
    ∃ r d, words.foldlM accept {} = .ok r ∧ r.Ready d ∧ ∀ q, d.Has q ↔ q ∈ parts := by
  have hstart : ({} : Reading).Ready {} := ⟨rfl, Bool.false_ne_true⟩
  obtain ⟨r, d, hwords, hr, hhas⟩ := hstart.spells hs hn fun p _ => Draft.lacks_empty p
  refine ⟨r, d, hwords, hr, fun q => ?_⟩
  rw [hhas, or_iff_left (Draft.not_has_of_lacks (Draft.lacks_empty q))]

/-- Behind two dashes alone every text but the empty one is a path. -/
theorem Ready.separated (hr : r.Ready d) {text : String} (hl : d.Lacks (.path text))
    (hne : text ≠ "") :
    ∃ r', ["--", text].foldlM accept r = .ok r' ∧ r'.settle = .ok (d.add (.path text)) := by
  let separated : Reading := { r with positionalOnly := true }
  have hdashes : r.accept "--" = .ok separated := by
    rw [accept, if_neg hr.options]
    rfl
  have hsettle : separated.settle = .ok d := hr.settle
  have hpath : separated.accept text =
      .ok { separated with draft := d, pending := some (.path text) } := by
    rw [accept, if_pos rfl]
    exact acceptPath_of_settle hsettle hl text
  refine ⟨_, ?_, settle_path hne separated d⟩
  rw [List.foldlM_cons, hdashes]
  show List.foldlM accept separated [text] = _
  rw [List.foldlM_cons, hpath]
  rfl

end Reading

/-! ### Whole lines -/

theorem readWords_of_foldlM {words : List String} {r : Reading} {d : Draft}
    (h : words.foldlM Reading.accept {} = .ok r) (hs : r.settle = .ok d) :
    readWords words = d.settings := by
  rw [readWords, h]
  show (r.settle >>= Draft.settings) = _
  rw [hs]
  rfl

/-- **Every setting can be said on the command line, in any order**.  Whatever the program's name,
let its words say the path and the options of a request, in any order and each in any of its
spellings; then they are read, and as the settings that are wanted.  The path may also come last,
behind two dashes; then it may be any text but the empty one. -/
theorem read_spelled (request : Request) (program : String) (parts : List Part)
    (words : List String) (hs : Spells parts words) :
    (parts.Perm (.path request.path :: request.options) →
      read (program :: words) = .ok request.settings) ∧
    (parts.Perm request.options → request.path ≠ "" →
      read (program :: (words ++ ["--", request.path])) = .ok request.settings) := by
  have hplaces := request.nodup_places
  constructor
  · intro hperm
    obtain ⟨r, d, hwords, hr, hhas⟩ :=
      Reading.exists_ready hs ((hperm.map Part.place).nodup_iff.2 hplaces)
    show readWords words = _
    rw [readWords_of_foldlM hwords hr.settle]
    exact Draft.settings_of_has fun p => (hhas p).trans hperm.mem_iff
  · intro hperm hne
    obtain ⟨r, d, hwords, hr, hhas⟩ :=
      Reading.exists_ready hs ((hperm.map Part.place).nodup_iff.2 (List.nodup_cons.1 hplaces).2)
    have hl : d.Lacks (.path request.path) :=
      Option.eq_none_iff_forall_ne_some.2 fun other hpath =>
        Request.path_not_mem_options (hperm.mem_iff.1 ((hhas (.path other)).1 hpath))
    obtain ⟨r', hlast, hsettle⟩ := hr.separated hl hne
    have hall : (words ++ ["--", request.path]).foldlM Reading.accept {} = .ok r' := by
      rw [List.foldlM_append, hwords]
      exact hlast
    show readWords (words ++ ["--", request.path]) = _
    rw [readWords_of_foldlM hall hsettle]
    refine Draft.settings_of_has fun p => ?_
    rw [Draft.has_add hl, hhas, hperm.mem_iff, List.mem_cons]

/-- Seed, switches, path and rate in a mixed order, with the path a dash alone and the rate written
with a sign and zeros; and a path that looks like an argument behind two dashes, without a rate. -/
theorem read_spelled_mixed :
    let mixed : Request := ⟨"-", some 7, true, some 9, { shiftReadsVy := true }⟩
    let parts : List Part := [.number .seed 9, .switch .shiftReadsVy, .path "-", .number .rate 7,
      .switch .haltOnUnsupported]
    let words := ["--seed", "9", "--shift-reads-vy", "-", "--ips=+007", "--halt-on-unsupported"]
    let bare : Request := ⟨"--ips", none, false, some 18446744073709551615,
      { logicResetsFlag := true }⟩
    let few : List Part := [.switch .logicResetsFlag, .number .seed 18446744073709551615]
    let fewWords := ["--logic-resets-flag", "--seed=18446744073709551615"]
    (Spells parts words ∧ parts.Perm (.path mixed.path :: mixed.options) ∧
      read ("chip8" :: words) = .ok mixed.settings) ∧
    (Spells few fewWords ∧ few.Perm bare.options ∧ bare.path ≠ "" ∧
      read ("chip8" :: (fewWords ++ ["--", "--ips"])) = .ok bare.settings) := by
  intro mixed parts words bare few fewWords
  have hs : Spells parts words :=
    .cons (.behind .seed false 0 9) (.cons (.switch .shiftReadsVy) (.cons
      (.path (by decide) (.inl rfl)) (.cons (.joined .rate true 2 7) (.cons
        (.switch .haltOnUnsupported) .nil))))
  have hfew : Spells few fewWords :=
    .cons (.switch .logicResetsFlag) (.cons (.joined .seed false 0 18446744073709551615) .nil)
  have hperm : parts.Perm (.path mixed.path :: mixed.options) := by decide
  have hfewPerm : few.Perm bare.options := by decide
  have hne : bare.path ≠ "" := by decide
  exact ⟨⟨hs, hperm, (read_spelled mixed "chip8" parts words hs).1 hperm⟩,
    hfew, hfewPerm, hne, (read_spelled bare "chip8" few fewWords hfew).2 hfewPerm hne⟩

end CommandLine

end Chip8
