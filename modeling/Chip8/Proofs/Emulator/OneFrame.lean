import Chip8.Proofs.Emulator.Frames

/-!
# One frame

A frame is compared with the machine that steps on without a host.  The results of such steps are
an endless sequence (`Machine.resultAt`); some of them end a frame (`Emulator.Ends`), and each is
reported in its own way (`Emulator.Reported`).  The frame ticks once and then makes as many of these
steps as its budget allows, up to the first that ends it.

* `Machine.trace_eq` : steps in a row as a beginning of the endless sequence;
* `Machine.Stops.eq_min` : how many they are;
* **`Emulator.frame_exact`** : the steps, the machine, the records, the fault and the budget of one
  frame.
-/

namespace Chip8

namespace Machine

variable {m : Machine} {ends : StepResult → Bool} {n : Nat}

/-! ### Stepping on -/

/-- The machine after so many steps. -/
def afterSteps (m : Machine) (n : Nat) : Machine :=
  (m.run (List.replicate n .step)).2

/-- The result of the step after the first `k`, if the machine steps on whatever happens. -/
def resultAt (m : Machine) (k : Nat) : StepResult :=
  (m.afterSteps k).step.1

theorem afterSteps_succ (m : Machine) (n : Nat) : m.afterSteps (n + 1) = m.step.2.afterSteps n :=
  rfl

theorem resultAt_zero (m : Machine) : m.resultAt 0 = m.step.1 := rfl

theorem resultAt_succ (m : Machine) (k : Nat) : m.resultAt (k + 1) = m.step.2.resultAt k := rfl

/-- The first results of the sequence. -/
def firstResults (m : Machine) (n : Nat) : List StepResult :=
  (List.range n).map m.resultAt

theorem firstResults_succ (m : Machine) (n : Nat) :
    m.firstResults (n + 1) = m.step.1 :: m.step.2.firstResults n := by
  rw [firstResults, List.range_succ_eq_map, List.map_cons, List.map_map]
  rfl

theorem getLast?_firstResults_succ (m : Machine) (n : Nat) :
    (m.firstResults (n + 1)).getLast? = some (m.resultAt n) := by
  rw [firstResults, List.range_succ, List.map_append, List.map_singleton, List.getLast?_concat]

/-- Of `n` steps in a row, the first `made` are made: they are all, or the last of them ends them,
and none before the last does. -/
structure Stops (m : Machine) (ends : StepResult → Bool) (n made : Nat) : Prop where
  /-- No more are made than there are. -/
  le : made ≤ n
  /-- A result that ends them is the last. -/
  last : ∀ k < made, ends (m.resultAt k) = true → k + 1 = made
  /-- Fewer are made only if a result ends them. -/
  ended : made < n → ∃ k, made = k + 1 ∧ ends (m.resultAt k) = true

/-- Steps in a row are a beginning of the sequence, and nothing but a result that ends them keeps
them from being all. -/
theorem trace_eq (m : Machine) (ends : StepResult → Bool) (n : Nat) :
    ∃ made, m.trace ends n = (m.firstResults made, m.afterSteps made) ∧ m.Stops ends n made := by
  induction n generalizing m with
  | zero => exact ⟨0, rfl, Nat.le_refl 0, nofun, nofun⟩
  | succ n ih =>
    rw [trace_succ]
    cases hends : ends m.step.1 with
    | true =>
      exact ⟨1, rfl, Nat.succ_pos n, fun k hk _ => by omega, fun _ => ⟨0, rfl, hends⟩⟩
    | false =>
      obtain ⟨made, htrace, hstops⟩ := ih m.step.2
      refine ⟨made + 1, ?_, Nat.succ_le_succ hstops.le, ?_, ?_⟩
      · rw [if_neg Bool.false_ne_true, htrace, firstResults_succ, afterSteps_succ]
      · intro k hk hend
        cases k with
        | zero => exact absurd (hends.symm.trans hend) Bool.false_ne_true
        | succ k => exact congrArg Nat.succ (hstops.last k (Nat.lt_of_succ_lt_succ hk) hend)
      · intro hlt
        obtain ⟨k, rfl, hk⟩ := hstops.ended (Nat.lt_of_succ_lt_succ hlt)
        exact ⟨k + 1, rfl, hk⟩

/-- The first result that ends the steps is that of the last step, if so many are to be made. -/
theorem Stops.eq_min {made j : Nat} (h : m.Stops ends n made) (hj : ends (m.resultAt j) = true)
    (hfirst : ∀ k < j, ends (m.resultAt k) ≠ true) : made = min n (j + 1) := by
  have hmade : made ≤ j + 1 := by
    refine Nat.le_of_not_lt fun hlt => ?_
    have := h.last j (Nat.lt_of_succ_lt hlt) hj
    omega
  refine Nat.le_antisymm (Nat.le_min.2 ⟨h.le, hmade⟩) (Nat.le_of_not_lt fun hlt => ?_)
  obtain ⟨k, rfl, hk⟩ := h.ended (Nat.lt_of_lt_of_le hlt (Nat.min_le_left _ _))
  have hearly : k + 1 < j + 1 := Nat.lt_of_lt_of_le hlt (Nat.min_le_right _ _)
  exact hfirst k (Nat.lt_of_succ_lt_succ hearly) hk

theorem Stops.eq_of_never {made : Nat} (h : m.Stops ends n made)
    (hnever : ∀ j, ends (m.resultAt j) ≠ true) : made = n := by
  refine Nat.le_antisymm h.le (Nat.le_of_not_lt fun hlt => ?_)
  obtain ⟨k, -, hk⟩ := h.ended hlt
  exact hnever k hk

end Machine

namespace Emulator

open Machine

variable {e : Emulator} {r : StepResult} {f : Fault}

/-! ### Results that end a frame, and records -/

/-- The results that end a frame. -/
inductive Ends (haltOnUnsupported : Bool) : StepResult → Prop
  /-- An instruction waits for a key. -/
  | waits : Ends haltOnUnsupported (.ok .waitingForKey)
  /-- A fatal fault. -/
  | fatal {f : Fault} (h : f.isFatal = true) : Ends haltOnUnsupported (.error f)
  /-- A word that is no instruction, if the settings say so. -/
  | unsupported (w : Word) (h : haltOnUnsupported = true) :
    Ends haltOnUnsupported (.error (.unsupportedOpcode w))

/-- The record of a step with a result, and its level; the step has left the counter at `pc`. -/
inductive Reported (haltOnUnsupported : Bool) (pc : UInt16) :
    StepResult → Level → Record → Prop
  /-- An instruction was carried out. -/
  | executed (i : Instruction) :
    Reported haltOnUnsupported pc (.ok (.executed i)) .trace (.executed i)
  /-- A word that is no instruction was passed over. -/
  | skipping (w : Word) (h : haltOnUnsupported = false) :
    Reported haltOnUnsupported pc (.error (.unsupportedOpcode w)) .warn
      (.skipping (.unsupportedOpcode w))
  /-- An instruction waits for a key. -/
  | waiting : Reported haltOnUnsupported pc (.ok .waitingForKey) .debug (.waiting pc)
  /-- A fault ends the run. -/
  | halting {f : Fault} (h : Ends haltOnUnsupported (.error f)) :
    Reported haltOnUnsupported pc (.error f) .error (.halting f)

theorem halts_iff : e.halts f = true ↔ Ends e.settings.haltOnUnsupported (.error f) := by
  rw [halts, Bool.or_eq_true]
  constructor
  · rintro (hfatal | hsettings)
    · exact .fatal hfatal
    · cases f with
      | unsupportedOpcode w => exact .unsupported w hsettings
      | _ => exact .fatal rfl
  · rintro (_ | hfatal | ⟨w, hsettings⟩)
    · exact .inl hfatal
    · exact .inr hsettings

theorem endsFrame_iff : e.endsFrame r = true ↔ Ends e.settings.haltOnUnsupported r := by
  match r with
  | .ok (.executed i) => exact ⟨nofun, nofun⟩
  | .ok .waitingForKey => exact ⟨fun _ => .waits, fun _ => rfl⟩
  | .error f => exact halts_iff

/-- The counter is in the record of a step that waits only. -/
theorem reported_ofStep (pc : UInt16) {pc' : UInt16} (hpc : r = .ok .waitingForKey → pc = pc') :
    Reported e.settings.haltOnUnsupported pc' r (Record.ofStep e.halts pc r).level
      (Record.ofStep e.halts pc r) := by
  match r with
  | .ok (.executed i) => exact .executed i
  | .ok .waitingForKey =>
    rw [hpc rfl]
    exact .waiting
  | .error f =>
    rw [Record.ofStep]
    cases hhalts : e.halts f with
    | true => exact .halting (halts_iff.1 hhalts)
    | false =>
      obtain ⟨hfatal, hsettings⟩ := Bool.or_eq_false_iff.1 hhalts
      obtain ⟨w, rfl⟩ := Fault.isFatal_eq_false_iff.1 hfatal
      exact .skipping w hsettings

theorem Reported.ends {haltOnUnsupported : Bool} {pc : UInt16} {level : Level} {record : Record}
    (h : Reported haltOnUnsupported pc r level record) (hlevel : level = .debug ∨ level = .error) :
    Ends haltOnUnsupported r := by
  cases h with
  | executed i => rcases hlevel with h | h <;> cases h
  | skipping w hsettings => rcases hlevel with h | h <;> cases h
  | waiting => exact .waits
  | halting hends => exact hends

theorem haltOf_eq_some_iff {results : List StepResult} {reason : Halt} :
    e.haltOf results = some reason ↔ ∃ f, results.getLast? = some (.error f) ∧
      Ends e.settings.haltOnUnsupported (.error f) ∧ reason = .fault f := by
  unfold haltOf
  split
  · next f hlast =>
    rw [hlast]
    constructor
    · intro hhalt
      by_cases hf : e.halts f = true
      · rw [if_pos hf] at hhalt
        exact ⟨f, rfl, halts_iff.1 hf, (Option.some.inj hhalt).symm⟩
      · rw [if_neg hf] at hhalt
        cases hhalt
    · rintro ⟨g, hg, hends, rfl⟩
      obtain rfl := Except.error.inj (Option.some.inj hg)
      exact if_pos (halts_iff.2 hends)
  · next hlast =>
    refine iff_of_false nofun ?_
    rintro ⟨f, hf, -⟩
    exact hlast f hf

/-- A frame whose steps have the first results of the sequence halts for the last of them. -/
theorem haltOf_firstResults {m : Machine} {made : Nat} {reason : Halt} :
    e.haltOf (m.firstResults made) = some reason ↔ ∃ f k, made = k + 1 ∧
      m.resultAt k = .error f ∧ Ends e.settings.haltOnUnsupported (.error f) ∧
      reason = .fault f := by
  rw [haltOf_eq_some_iff]
  cases made with
  | zero =>
    refine iff_of_false ?_ ?_
    · rintro ⟨f, hf, -⟩
      cases hf
    · rintro ⟨f, k, hk, -⟩
      cases hk
  | succ k =>
    rw [getLast?_firstResults_succ]
    constructor
    · rintro ⟨f, hf, hends, hreason⟩
      exact ⟨f, k, rfl, Option.some.inj hf, hends, hreason⟩
    · rintro ⟨f, last, hk, hf, hends, hreason⟩
      obtain rfl := Nat.succ.inj hk
      exact ⟨f, congrArg some hf, hends, hreason⟩

theorem records_of_next? {steps : UInt64} {b : StepBudget}
    (h : e.budget.next? = some (steps, b)) :
    e.frame.records = (e.machine.tick.trace e.endsFrame steps.toNat).1.map
      (Record.ofStep e.halts (e.machine.tick.trace e.endsFrame steps.toNat).2.snapshot.pc) := by
  rw [frame, h]

/-! ### The frame -/

/-- **One frame, exactly.**  Let the carry be below sixty and the rate at most `2 ^ 64 - 60`.  The
frame ticks once and then makes the steps of its budget, up to the first whose result ends it, and
that one, too; if there is none among them, it makes them all.  The machine is left as so many steps
leave it.  There is a record for each step, in order; only the last may be of a step that waits or
halts.  The frame halts exactly if the last step has ended it with a fault, and for this fault.  The
budget is spent as a whole, however early the frame has ended. -/
theorem frame_exact (e : Emulator) (h : e.budget.Safe) :
    let ticked := e.machine.tick
    let ends := Ends e.settings.haltOnUnsupported
    ∃ steps budget made, e.budget.next? = some (steps, budget) ∧
      steps.toNat = (e.budget.carry.toNat + e.budget.rate.toNat) / 60 ∧
      budget.carry.toNat = (e.budget.carry.toNat + e.budget.rate.toNat) % 60 ∧
      (∀ j, ends (ticked.resultAt j) → (∀ k < j, ¬ ends (ticked.resultAt k)) →
        made = min steps.toNat (j + 1)) ∧
      ((∀ j, ¬ ends (ticked.resultAt j)) → made = steps.toNat) ∧
      e.frame.emulator = { e with machine := ticked.afterSteps made, budget := budget } ∧
      e.frame.records.length = made ∧
      (∀ k < made, ∃ record, e.frame.records[k]? = some record ∧
        Reported e.settings.haltOnUnsupported (ticked.afterSteps (k + 1)).snapshot.pc
          (ticked.resultAt k) record.level record ∧
        (record.level = .debug ∨ record.level = .error → k + 1 = made)) ∧
      ∀ reason, e.frame.halt = some reason ↔ ∃ f k, made = k + 1 ∧
        ticked.resultAt k = .error f ∧ ends (.error f) ∧ reason = .fault f := by
  intro ticked ends
  obtain ⟨steps, budget, hnext, -, -, hsteps, hcarry⟩ := h.next?
  obtain ⟨made, htrace, hstops⟩ := ticked.trace_eq e.endsFrame steps.toNat
  obtain ⟨hresults, hafter, hhalt⟩ := frame_of_next? hnext
  have hrecords := records_of_next? hnext
  rw [htrace] at hresults hafter hrecords
  have hlast : ∀ k < made, ends (ticked.resultAt k) → k + 1 = made :=
    fun k hk hends => hstops.last k hk (endsFrame_iff.2 hends)
  refine ⟨steps, budget, made, hnext, hsteps, hcarry, ?_, ?_, hafter, ?_, ?_, ?_⟩
  · intro j hends hfirst
    exact hstops.eq_min (endsFrame_iff.2 hends) fun k hk hk' => hfirst k hk (endsFrame_iff.1 hk')
  · intro hnever
    exact hstops.eq_of_never fun j hj => hnever j (endsFrame_iff.1 hj)
  · rw [hrecords, List.length_map, firstResults, List.length_map, List.length_range]
  · intro k hk
    have hrecord : e.frame.records[k]? =
        some (Record.ofStep e.halts (ticked.afterSteps made).snapshot.pc (ticked.resultAt k)) := by
      rw [hrecords, List.getElem?_map, firstResults, List.getElem?_map, List.getElem?_range hk]
      rfl
    -- the records are made with the counter behind the last step, and a step that waits is the last
    have hpc : ticked.resultAt k = .ok .waitingForKey →
        (ticked.afterSteps made).snapshot.pc = (ticked.afterSteps (k + 1)).snapshot.pc :=
      fun hwaits => by rw [hlast k hk (hwaits ▸ .waits)]
    have hreported := reported_ofStep (e := e) _ hpc
    exact ⟨_, hrecord, hreported, fun hlevel => hlast k hk (hreported.ends hlevel)⟩
  · intro reason
    rw [hhalt, hresults]
    exact haltOf_firstResults

/-- The last two bytes of memory are no instruction, and none can be fetched behind them.  The frame
passes over the word and halts at the fetch, or halts at the word if the settings say so; what is
carried on is the same. -/
theorem frame_exact_end :
    let machine := { Machine.fresh {} (.ofList []) with pc := 0xFFE }
    let start (halt : Bool) : Emulator :=
      ⟨machine, { path := "end", haltOnUnsupported := halt }, .ofRate 700⟩
    (∀ halt, (start halt).budget.Safe) ∧
      (start false).frame.records.length = 2 ∧
      (start false).frame.halt = some (.fault (.addressOutOfRange 0x1000)) ∧
      (start false).frame.emulator.budget.carry.toNat = 40 ∧
      (start true).frame.records.length = 1 ∧
      (start true).frame.halt = some (.fault (.unsupportedOpcode 0)) ∧
      (start true).frame.emulator.budget.carry.toNat = 40 := by
  intro machine start
  have hsafe : ∀ halt, (start halt).budget.Safe := fun _ => StepBudget.safe_ofRate (by decide)
  have hforty : ∀ halt,
      ((start halt).budget.carry.toNat + (start halt).budget.rate.toNat) % 60 = 40 := by decide
  -- the two steps behind the tick
  have hword : machine.tick.word = 0 := by
    show Word.ofBytes (Memory.fresh.byteAt 0xFFE) (Memory.fresh.byteAt 0xFFF) = 0
    rw [Memory.byteAt_fresh_of_le (by decide), Memory.byteAt_fresh_of_le (by decide)]
    rfl
  have hfirst : machine.tick.step = (.error (.unsupportedOpcode 0), machine.tick.fetched) := by
    have hd : Instruction.decode? machine.tick.word = none := by
      rw [hword]
      decide
    rw [(Stepped.unsupported rfl (by decide) hd).step_eq, hword]
  have hsecond : machine.tick.fetched.step =
      (.error (.addressOutOfRange 0x1000), machine.tick.fetched) :=
    (Stepped.outside rfl (by decide)).step_eq
  have hzero : machine.tick.resultAt 0 = .error (.unsupportedOpcode 0) := by
    rw [resultAt_zero, hfirst]
  have hone : machine.tick.resultAt 1 = .error (.addressOutOfRange 0x1000) := by
    rw [resultAt_succ, hfirst, resultAt_zero, hsecond]
  obtain ⟨steps, budget, made, -, hsteps, hcarry, hmade, -, hafter, hlength, -, hhalt⟩ :=
    frame_exact (start false) (hsafe false)
  obtain ⟨steps', budget', made', -, hsteps', hcarry', hmade', -, hafter', hlength', -, hhalt'⟩ :=
    frame_exact (start true) (hsafe true)
  have hfatal : Ends false (.error (.addressOutOfRange 0x1000)) := .fatal rfl
  have hpassed : ¬ Ends false (.error (.unsupportedOpcode 0)) := by
    rintro (_ | h | ⟨_, h⟩) <;> cases h
  have htwo : made = 2 := by
    rw [hmade 1 (hone ▸ hfatal) fun k hk => ?_, hsteps]
    · decide
    · obtain rfl := Nat.lt_one_iff.1 hk
      exact hzero ▸ hpassed
  have hends : Ends true (.error (.unsupportedOpcode 0)) := .unsupported 0 rfl
  have hsingle : made' = 1 := by
    rw [hmade' 0 (hzero ▸ hends) nofun, hsteps']
    decide
  refine ⟨hsafe, hlength.trans htwo, (hhalt _).2 ⟨_, 1, htwo, hone, hfatal, rfl⟩, ?_,
    hlength'.trans hsingle, (hhalt' _).2 ⟨_, 0, hsingle, hzero, hends, rfl⟩, ?_⟩
  · rw [hafter]
    exact hcarry.trans (hforty false)
  · rw [hafter']
    exact hcarry'.trans (hforty true)

end Emulator

end Chip8
