import Chip8.Proofs.Machine.Independence

/-!
# Random bytes told from the history

A random source moves on by one word for each instruction that asks for a random byte and is
carried out, and for nothing else: not for other instructions, not for steps that fail or wait, and
not for a reset.  So which word an instruction gets is told by how many such instructions came
before it.

`Machine.rolls` lists them, each with its mask and what it left in its register.  From the list it
follows what another source would have changed: nothing, as long as the bytes it gives are the same
under the masks.

* `Machine.random_handle_of_roll`, `Machine.random_handle_of_no_roll` : the source after one event;
* `Machine.handle_source_of_roll`, `Machine.handle_source_of_no_roll` : one event under two sources;
* **`Machine.random_history`** : the words that a history takes, and the same history under another
  source.
-/

namespace Chip8

/-- The instructions that ask for a random byte. -/
def Instruction.usesRandom : Instruction → Bool
  | random _ _ => true
  | _ => false

/-- A random byte that was asked for, under a mask, and what the register then holds. -/
structure Roll where
  /-- The register. -/
  register : Register
  /-- The mask. -/
  mask : UInt8
  /-- What is left in the register. -/
  value : UInt8
  deriving DecidableEq

namespace RandomSource

/-- The byte that a source gives after `j` others. -/
def byte (r : RandomSource) (j : Nat) : UInt8 :=
  (r.word (r.position + j)).toUInt8

/-- The source behind so many words. -/
def drop (r : RandomSource) (n : Nat) : RandomSource :=
  { r with position := r.position + n }

theorem byte_drop (r : RandomSource) (n j : Nat) : (r.drop n).byte j = r.byte (n + j) := by
  rw [byte, byte, drop, Nat.add_assoc]

theorem drop_drop (r : RandomSource) (n k : Nat) : (r.drop n).drop k = r.drop (n + k) := by
  rw [drop, drop, drop, Nat.add_assoc]

/-- Two sources give the same bytes under the masks of a list. -/
def Alike (r r' : RandomSource) (rolls : List Roll) : Prop :=
  ∀ (j : Nat) (roll : Roll), rolls[j]? = some roll →
    r.byte j &&& roll.mask = r'.byte j &&& roll.mask

theorem alike_cons {r r' : RandomSource} {roll : Roll} {rest : List Roll} :
    r.Alike r' (roll :: rest) ↔
      r.byte 0 &&& roll.mask = r'.byte 0 &&& roll.mask ∧ (r.drop 1).Alike (r'.drop 1) rest := by
  constructor
  · intro h
    refine ⟨h 0 roll rfl, fun j roll' hroll' => ?_⟩
    rw [byte_drop, byte_drop, Nat.add_comm]
    exact h (j + 1) roll' hroll'
  · rintro ⟨hfirst, hrest⟩ (_ | j) roll' hroll'
    · obtain rfl := Option.some.inj hroll'
      exact hfirst
    · have := hrest j roll' hroll'
      rwa [byte_drop, byte_drop, Nat.add_comm] at this

end RandomSource

/-- The random byte that is asked for at a moment, if one is. -/
def Moment.roll? (s : Moment) : Option Roll :=
  match s.executed? with
  | some (.random x mask) => some ⟨x, mask, s.machine.step.2.registers.read x⟩
  | _ => none

namespace Machine

variable {m : Machine} {e : Event} {roll : Roll} {r : RandomSource}

/-- The random bytes that are asked for in a history, in order. -/
def rolls (m : Machine) (history : List Event) : List Roll :=
  (m.moments history).filterMap Moment.roll?

theorem rolls_cons_of_roll (h : (⟨m, e⟩ : Moment).roll? = some roll) (rest : List Event) :
    m.rolls (e :: rest) = roll :: (m.handle e).2.rolls rest :=
  List.filterMap_cons_some h

theorem rolls_cons_of_no_roll (h : (⟨m, e⟩ : Moment).roll? = none) (rest : List Event) :
    m.rolls (e :: rest) = (m.handle e).2.rolls rest :=
  List.filterMap_cons_none h

/-- The same machine with another source. -/
def withSource (m : Machine) (r : RandomSource) : Machine :=
  { m with random := r }

/-! ### One event -/

theorem attempted_of_roll (h : (⟨m, e⟩ : Moment).roll? = some roll) :
    e = .step ∧ m.keyWait = none ∧ m.attempted = some (.random roll.register roll.mask) ∧
      roll.value = m.step.2.registers.read roll.register := by
  unfold Moment.roll? at h
  split at h
  · next x mask hi =>
    obtain ⟨he, hresult⟩ := executed?_eq_some_iff.1 hi
    obtain ⟨hw, ha, -⟩ := attempted_of_executed hresult (by simp)
    obtain rfl := Option.some.inj h
    exact ⟨he, hw, ha, rfl⟩
  · cases h

theorem usesRandom_eq_false (h : (⟨m, .step⟩ : Moment).roll? = none) (i : Instruction)
    (hi : m.step.1 = .ok (.executed i)) : i.usesRandom = false := by
  unfold Moment.roll? at h
  rw [executed?_eq_some_iff.2 ⟨rfl, hi⟩] at h
  cases i with
  | random x mask => cases h
  | _ => rfl

theorem users_random : Users Instruction.usesRandom [.random] where
  works m i h := by
    cases i with
    | random x mask => rfl
    | _ => cases h
  apart m i h p hp := by
    obtain rfl := List.mem_singleton.1 hp
    cases i with
    | random x mask => cases h
    | skip c => cases c <;> simp [reads, writes, Condition.reads]
    | combine f x y =>
      cases f with
      | shiftRight | shiftLeft =>
        by_cases hxy : x = y <;> simp [reads, writes, Operation.switches, hxy]
      | _ => simp [reads, writes, Operation.switches]
    | _ => simp [reads, writes, bytesAtIndex, indexMoved]

theorem actsOn_withSource (r : RandomSource) : ActsOn (·.withSource r) [.random] where
  outside m p hp := by
    cases p with
    | random => exact absurd (List.mem_singleton_self _) hp
    | _ => rfl
  inside m n h p hp := by
    obtain rfl := List.mem_singleton.1 hp
    rfl

/-- A step that asks for no random byte is the same under every source. -/
theorem step_withSource (hquiet : ∀ i, m.step.1 = .ok (.executed i) → i.usesRandom = false) :
    (m.withSource r).step = (m.step.1, m.step.2.withSource r) := by
  obtain ⟨hresult, hleft⟩ :=
    (actsOn_withSource r).exchange_always users_random (by simp [fetchReads]) (by simp)
  exact Prod.ext hresult (hleft hquiet)

theorem handle_of_roll (h : (⟨m, e⟩ : Moment).roll? = some roll) :
    m.handle e = (.stepped (.executed (.random roll.register roll.mask)),
      m.fetched.effect (.random roll.register roll.mask)) := by
  obtain ⟨rfl, hw, ha, -⟩ := attempted_of_roll h
  rw [handle, step_of_attempted hw ha rfl]
  rfl

theorem random_handle_of_roll (h : (⟨m, e⟩ : Moment).roll? = some roll) :
    (m.handle e).2.random = m.random.drop 1 ∧ roll.value = m.random.byte 0 &&& roll.mask := by
  obtain ⟨-, hw, ha, hvalue⟩ := attempted_of_roll h
  rw [handle_of_roll h, hvalue, step_of_attempted hw ha rfl]
  exact ⟨rfl, Registers.read_write_self _ _ _⟩

theorem random_effect (m : Machine) (i : Instruction) :
    (m.effect i).random = if i.usesRandom then m.random.drop 1 else m.random := by
  cases i <;> rfl

theorem random_step (hquiet : ∀ i, m.step.1 = .ok (.executed i) → i.usesRandom = false) :
    m.step.2.random = m.random := by
  refine step_keeps Machine.random rfl (fun _ _ => rfl) fun i hi => ?_
  rw [random_effect, hquiet i hi]
  rfl

theorem random_handle_of_no_roll (h : (⟨m, e⟩ : Moment).roll? = none) :
    (m.handle e).2.random = m.random := by
  by_cases hs : e = .step
  · subst hs
    exact random_step (usesRandom_eq_false h)
  · exact (m.handle_of_ne_step hs).2

/-- An event that asks for a random byte is the same under a source that gives the same byte under
the mask; that source moves on, too. -/
theorem handle_source_of_roll (h : (⟨m, e⟩ : Moment).roll? = some roll)
    (hbyte : m.random.byte 0 &&& roll.mask = r.byte 0 &&& roll.mask) :
    (m.withSource r).handle e = ((m.handle e).1, (m.handle e).2.withSource (r.drop 1)) := by
  obtain ⟨rfl, hw, ha, -⟩ := attempted_of_roll h
  have hstep : (m.withSource r).step = (.ok (.executed (.random roll.register roll.mask)),
      (m.withSource r).fetched.effect (.random roll.register roll.mask)) :=
    step_of_attempted hw ha rfl
  have hleft : (m.withSource r).fetched.effect (.random roll.register roll.mask) =
      (m.fetched.effect (.random roll.register roll.mask)).withSource (r.drop 1) := by
    show { m.fetched with
        random := r.drop 1
        registers := m.registers.write roll.register (r.byte 0 &&& roll.mask) } =
      { m.fetched with
        random := r.drop 1
        registers := m.registers.write roll.register (m.random.byte 0 &&& roll.mask) }
    rw [hbyte]
  rw [handle_of_roll h, handle, hstep, hleft]
  rfl

theorem handle_source_of_no_roll (h : (⟨m, e⟩ : Moment).roll? = none) (r : RandomSource) :
    (m.withSource r).handle e = ((m.handle e).1, (m.handle e).2.withSource r) := by
  by_cases hs : e = .step
  · subst hs
    rw [handle, step_withSource (usesRandom_eq_false h)]
    rfl
  · refine (m.handle_with_of_ne_step m.dialect r hs).trans ?_
    rw [← (m.handle_of_ne_step hs).1]
    rfl

/-! ### Histories -/

/-- A history takes as many words from the source as it asks for random bytes. -/
theorem random_run (m : Machine) (history : List Event) :
    (m.run history).2.random = m.random.drop (m.rolls history).length := by
  induction history generalizing m with
  | nil => rfl
  | cons e rest ih =>
    rw [run_cons, ih]
    cases h : (⟨m, e⟩ : Moment).roll? with
    | some roll =>
      rw [rolls_cons_of_roll h, (random_handle_of_roll h).1, RandomSource.drop_drop,
        List.length_cons, Nat.add_comm]
    | none => rw [rolls_cons_of_no_roll h, random_handle_of_no_roll h]

/-- A random byte that was asked for is that of its turn under its mask. -/
theorem value_of_rolls {history : List Event} {j : Nat} (h : (m.rolls history)[j]? = some roll) :
    roll.value = m.random.byte j &&& roll.mask := by
  induction history generalizing m j with
  | nil => cases h
  | cons e rest ih =>
    cases hroll : (⟨m, e⟩ : Moment).roll? with
    | none =>
      rw [rolls_cons_of_no_roll hroll] at h
      rw [ih h, random_handle_of_no_roll hroll]
    | some roll' =>
      obtain ⟨hrandom, hvalue⟩ := random_handle_of_roll hroll
      rw [rolls_cons_of_roll hroll] at h
      cases j with
      | zero =>
        obtain rfl := Option.some.inj h
        exact hvalue
      | succ j => rw [ih h, hrandom, RandomSource.byte_drop, Nat.add_comm]

/-- A history comes to the same under a source that gives the same bytes under the masks; that
source has moved on as far. -/
theorem run_withSource {history : List Event} (h : m.random.Alike r (m.rolls history)) :
    (m.withSource r).run history =
      ((m.run history).1, (m.run history).2.withSource (r.drop (m.rolls history).length)) := by
  induction history generalizing m r with
  | nil => rfl
  | cons e rest ih =>
    rw [run_cons, run_cons]
    cases hroll : (⟨m, e⟩ : Moment).roll? with
    | none =>
      rw [rolls_cons_of_no_roll hroll] at h ⊢
      rw [← random_handle_of_no_roll hroll] at h
      rw [handle_source_of_no_roll hroll, ih h]
    | some roll =>
      rw [rolls_cons_of_roll hroll] at h ⊢
      obtain ⟨hbyte, hrest⟩ := RandomSource.alike_cons.1 h
      rw [← (random_handle_of_roll hroll).1] at hrest
      rw [handle_source_of_roll hroll hbyte, ih hrest, RandomSource.drop_drop, List.length_cons,
        Nat.add_comm]

/-- **Random bytes are told from the history.**  After every history the source has moved on by one
word for each instruction that asked for a random byte and was carried out; each left in its
register the low byte of the word of its turn, under its mask.  So a machine with another source
gives the same replies and is left the same but for the source, as long as the bytes under the masks
are the same. -/
theorem random_history (m : Machine) (history : List Event) :
    let rolls := m.rolls history
    (m.run history).2.random = m.random.drop rolls.length ∧
    (∀ (j : Nat) (roll : Roll), rolls[j]? = some roll →
      roll.value = (m.random.word (m.random.position + j)).toUInt8 &&& roll.mask) ∧
    ∀ r : RandomSource, m.random.Alike r rolls →
      (m.withSource r).run history =
        ((m.run history).1, (m.run history).2.withSource (r.drop rolls.length)) :=
  ⟨m.random_run history, fun _ _ => value_of_rolls, fun _ => run_withSource⟩

/-- Two bytes are asked for, the first under a mask that hides where the sources differ. -/
theorem random_history_masked :
    let program : List UInt8 := [0xC3, 0x0F, 0xC4, 0xFF]
    let history : List Event := [.load program, .step, .tick, .step]
    let m := fresh {} (.ofList [0x11A, 0x2B])
    let r := RandomSource.ofList [0xFA, 0x2B, 0x33]
    m.rolls history = [⟨3, 0x0F, 0x0A⟩, ⟨4, 0xFF, 0x2B⟩] ∧
      (m.run history).2.random = m.random.drop 2 ∧
      (m.withSource r).run history =
        ((m.run history).1, (m.run history).2.withSource (r.drop 2)) := by
  intro program history m r
  have hrolls : m.rolls history = [⟨3, 0x0F, 0x0A⟩, ⟨4, 0xFF, 0x2B⟩] := by
    decide +kernel
  obtain ⟨hrandom, -, hsource⟩ := random_history m history
  have hsame := hsource r
  rw [hrolls] at hrandom hsame
  refine ⟨hrolls, hrandom, hsame ?_⟩
  rintro (_ | _ | j) roll hroll
  · obtain rfl := Option.some.inj hroll
    decide
  · obtain rfl := Option.some.inj hroll
    decide
  · cases hroll

end Machine

end Chip8
