import Chip8.Proofs.Machine.Dependence

/-!
# The host's clock and keyboard against the machine's steps

What a host does to the timers and to the keys touches a few parts of the machine and looks at
nothing else (`Machine.ActsOn`).  A step that neither reads nor writes these parts may be made
before or after it (`Machine.ActsOn.step`).

So ticks can be moved through any run of steps that leaves the timers to the host: every history is
brought into every other order by exchanges of neighbours.

* `Machine.tick_step`, `Machine.handle_key_step` : a tick, or a report of keys, exchanged with one
  step;
* `Machine.run_perm` : the order of steps and ticks does not matter;
* **`Machine.clock_and_keys_independent`** : both laws, and the timers that are left.
-/

namespace Chip8

namespace Instruction

/-- The instructions that look at a timer or set one. -/
def usesTimers : Instruction → Bool
  | readDelay _ | setDelay _ | setSound _ => true
  | _ => false

/-- The instructions that look at the keys or wait for one. -/
def usesKeys : Instruction → Bool
  | skip (.keyDown _) | skip (.keyUp _) | awaitKey _ => true
  | _ => false

end Instruction

namespace Event

/-- Reports of keys, single or all. -/
def isKey : Event → Bool
  | setKey _ _ | releaseAllKeys => true
  | _ => false

end Event

namespace Machine

variable {m n : Machine} {i : Instruction} {p : Part} {act : Machine → Machine}
  {parts : List Part}

/-! ### Acting on some parts -/

/-- What is done to a machine in some parts, looking at these parts only. -/
structure ActsOn (act : Machine → Machine) (parts : List Part) : Prop where
  /-- The other parts are left alone. -/
  outside : ∀ m p, p ∉ parts → (act m).Agrees m p
  /-- What becomes of the parts is decided by them. -/
  inside : ∀ m n, (∀ p ∈ parts, m.Agrees n p) → ∀ p ∈ parts, (act m).Agrees (act n) p

/-- **An action may be exchanged with a step that does not touch its parts.** -/
theorem ActsOn.step (h : ActsOn act parts) (hr : ∀ p ∈ parts, p ∉ m.stepReads)
    (hw : ∀ p ∈ parts, p ∉ m.stepWrites) : (act m).step = (m.step.1, act m.step.2) := by
  have hreads : ∀ p ∈ m.stepReads, m.Agrees (act m) p := fun p hp =>
    (h.outside m p fun hmem => hr p hmem hp).symm
  have hwrites : m.stepWrites = (act m).stepWrites := stepWrites_congr hreads
  obtain ⟨hresult, hmatch⟩ := step_congr hreads
  refine Prod.ext hresult.symm (ext_agrees fun p => ?_)
  by_cases hp : p ∈ parts
  · -- both orders leave what the action makes of the part as it was
    have hkept : ∀ q ∈ parts, m.step.2.Agrees m q := fun q hq => step_frame (hw q hq)
    have hleft : (act m).step.2.Agrees (act m) p := step_frame (hwrites ▸ hw p hp)
    exact hleft.trans (h.inside _ _ hkept p hp).symm
  · -- both orders leave what the step makes of the part
    refine Agrees.trans ?_ (h.outside _ p hp).symm
    rcases hmatch p with hsame | ⟨hm, hact⟩
    · exact hsame.symm
    · exact hact.trans ((h.outside m p hp).trans hm.symm)

/-- Some instructions are all that touch some parts, and nothing stands in the way of them. -/
structure Users (uses : Instruction → Bool) (parts : List Part) : Prop where
  /-- They do not fail. -/
  works : ∀ (m : Machine) {i}, uses i = true → m.obstacle i = none
  /-- The others do not touch the parts. -/
  apart : ∀ (m : Machine) {i}, uses i = false → ∀ p ∈ parts, p ∉ m.reads i ∧ p ∉ m.writes i

theorem ActsOn.step_of_waiting {x : Register} (h : ActsOn act parts) (hw : m.keyWait = some x)
    (hparts : ∀ p ∈ parts, p ∉ [.register x, .press, .keyWait]) :
    (act m).step = (m.step.1, act m.step.2) := by
  refine h.step ?_ ?_
  · intro p hp hmem
    rw [stepReads_of_waiting hw] at hmem
    exact hparts p hp (List.mem_cons_of_mem _ hmem)
  · rw [stepWrites_of_waiting hw]
    exact hparts

theorem ActsOn.step_of_running {uses : Instruction → Bool} (h : ActsOn act parts)
    (hu : Users uses parts) (hw : m.keyWait = none) (hparts : ∀ p ∈ parts, p ∉ m.fetchReads)
    (hquiet : ∀ i, m.attempted = some i → uses i = false) :
    (act m).step = (m.step.1, act m.step.2) := by
  refine h.step ?_ ?_
  · intro p hp
    rw [stepReads_of_running hw, List.mem_append, not_or]
    refine ⟨hparts p hp, ?_⟩
    cases ha : m.attempted with
    | none => exact List.not_mem_nil
    | some i => exact (hu.apart m.fetched (hquiet i ha) p hp).1
  · intro p hp
    rw [stepWrites_of_running hw, List.mem_cons, not_or]
    refine ⟨fun hpc => hparts p hp (by simp [fetchReads, hpc]), ?_⟩
    cases ha : m.attempted with
    | none => exact List.not_mem_nil
    | some i => exact (hu.apart m.fetched (hquiet i ha) p hp).2

/-- **An action has no part in the result of a step, and may be exchanged with it** unless an
instruction that touches the parts of the action is executed. -/
theorem ActsOn.exchange {uses : Instruction → Bool} (h : ActsOn act parts)
    (hu : Users uses parts) (hw : m.keyWait = none) (hparts : ∀ p ∈ parts, p ∉ m.fetchReads) :
    (act m).step.1 = m.step.1 ∧
      ((∀ i, m.step.1 = .ok (.executed i) → uses i = false) →
        (act m).step.2 = act m.step.2) := by
  by_cases hquiet : ∀ i, m.attempted = some i → uses i = false
  · rw [h.step_of_running hu hw hparts hquiet]
    exact ⟨rfl, fun _ => rfl⟩
  -- an instruction that touches the parts is executed in both orders
  obtain ⟨i, ha, hi⟩ : ∃ i, m.attempted = some i ∧ uses i = true := by
    simpa using hquiet
  have hagree : ∀ p ∈ m.fetchReads, m.Agrees (act m) p :=
    fun p hp => (h.outside m p fun hmem => hparts p hmem hp).symm
  obtain ⟨hwait, hpc, hword⟩ := fetch_congr hagree
  have hw' : (act m).keyWait = none := hwait ▸ hw
  have ha' : (act m).attempted = some i := attempted_congr hpc hword ▸ ha
  have hm : m.step.1 = .ok (.executed i) :=
    congrArg Prod.fst (step_of_attempted hw ha (hu.works _ hi))
  have hact : (act m).step.1 = .ok (.executed i) :=
    congrArg Prod.fst (step_of_attempted hw' ha' (hu.works _ hi))
  refine ⟨hact.trans hm.symm, fun hnone => ?_⟩
  cases hi.symm.trans (hnone i hm)

/-- The same, while a register waits, too, if the action has nothing to do with that. -/
theorem ActsOn.exchange_always {uses : Instruction → Bool} (h : ActsOn act parts)
    (hu : Users uses parts) (hfetch : ∀ p ∈ parts, p ∉ m.fetchReads)
    (hwait : ∀ x, ∀ p ∈ parts, p ∉ [.register x, .press, .keyWait]) :
    (act m).step.1 = m.step.1 ∧
      ((∀ i, m.step.1 = .ok (.executed i) → uses i = false) →
        (act m).step.2 = act m.step.2) := by
  cases hw : m.keyWait with
  | some x =>
    rw [h.step_of_waiting hw (hwait x)]
    exact ⟨rfl, fun _ => rfl⟩
  | none => exact h.exchange hu hw hfetch

theorem actsOn_tick : ActsOn tick [.delay, .sound] where
  outside m p hp := by
    cases p with
    | delay | sound => exact absurd (by simp) hp
    | _ => rfl
  inside m n h p hp := by
    obtain rfl | rfl : p = .delay ∨ p = .sound := by simpa using hp
    · exact congrArg Timers.countDown (h .delay (by simp))
    · exact congrArg Timers.countDown (h .sound (by simp))

theorem actsOn_keypad (change : Keypad → Keypad) :
    ActsOn (fun m => { m with keypad := change m.keypad }) [.keys, .press] where
  outside m p hp := by
    cases p with
    | keys | press => exact absurd (by simp) hp
    | _ => rfl
  inside m n h p hp := by
    have hdown : m.keypad.down = n.keypad.down := h .keys (by simp)
    have hpress : m.keypad.lastPress = n.keypad.lastPress := h .press (by simp)
    have hkeypad : m.keypad = n.keypad := by
      show Keypad.mk m.keypad.down m.keypad.lastPress = ⟨n.keypad.down, n.keypad.lastPress⟩
      rw [hdown, hpress]
    obtain rfl | rfl : p = .keys ∨ p = .press := by simpa using hp
    · exact congrArg (fun k => (change k).down) hkeypad
    · exact congrArg (fun k => (change k).lastPress) hkeypad

theorem actsOn_key {e : Event} (he : e.isKey) :
    ActsOn (fun m => (m.handle e).2) [.keys, .press] := by
  cases e with
  | setKey index on =>
    by_cases h : index < 16
    · have hact : (fun m : Machine => (m.handle (.setKey index on)).2) =
          fun m => { m with keypad := m.keypad.setKey ⟨index, h⟩ on } :=
        funext fun m => m.handle_setKey_of_lt h on
      rw [hact]
      exact actsOn_keypad fun k => k.setKey ⟨index, h⟩ on
    · have hact : (fun m : Machine => (m.handle (.setKey index on)).2) =
          fun m => { m with keypad := m.keypad } :=
        funext fun m => m.handle_setKey_of_le (Nat.not_lt.1 h) on
      rw [hact]
      exact actsOn_keypad id
  | releaseAllKeys => exact actsOn_keypad Keypad.releaseAll
  | _ => cases he

theorem users_timers : Users Instruction.usesTimers [.delay, .sound] where
  works m i h := by
    cases i with
    | readDelay x | setDelay x | setSound x => rfl
    | _ => cases h
  apart m i h p hp := by
    obtain rfl | rfl : p = .delay ∨ p = .sound := by simpa using hp
    all_goals
      cases i with
      | readDelay x | setDelay x | setSound x => cases h
      | skip c => cases c <;> simp [reads, writes, Condition.reads]
      | combine f x y => cases f <;> simp [reads, writes, Operation.switches]
      | _ => simp [reads, writes, bytesAtIndex, indexMoved]

theorem users_keys : Users Instruction.usesKeys [.keys, .press] where
  works m i h := by
    cases i with
    | skip c | awaitKey x => rfl
    | _ => cases h
  apart m i h p hp := by
    obtain rfl | rfl : p = .keys ∨ p = .press := by simpa using hp
    all_goals
      cases i with
      | awaitKey x => cases h
      | skip c =>
        cases c with
        | keyDown x | keyUp x => cases h
        | _ => simp [reads, writes, Condition.reads]
      | combine f x y => cases f <;> simp [reads, writes, Operation.switches]
      | _ => simp [reads, writes, bytesAtIndex, indexMoved]

/-! ### Exchanges -/

/-- A tick has no part in the result of a step, and may be exchanged with it unless the step
executes an instruction that uses the timers. -/
theorem tick_step (m : Machine) :
    m.tick.step.1 = m.step.1 ∧
      ((∀ i, m.step.1 = .ok (.executed i) → i.usesTimers = false) →
        m.tick.step.2 = m.step.2.tick) :=
  actsOn_tick.exchange_always users_timers (by simp [fetchReads]) (by simp)

/-- A report of keys has no part in the result of a step while no register waits, and may be
exchanged with it unless the step executes an instruction that uses the keys. -/
theorem handle_key_step {e : Event} (he : e.isKey) (hw : m.keyWait = none) :
    (m.handle e).2.step.1 = m.step.1 ∧
      ((∀ i, m.step.1 = .ok (.executed i) → i.usesKeys = false) →
        (m.handle e).2.step.2 = (m.step.2.handle e).2) :=
  (actsOn_key he).exchange users_keys hw (by simp [fetchReads])

theorem handle_key_reply {e : Event} (he : e.isKey) (m n : Machine) :
    (m.handle e).1 = (n.handle e).1 := by
  cases e with
  | setKey index on =>
    rw [handle, handle, setKey, setKey]
    cases Key.ofIndex index <;> rfl
  | releaseAllKeys => rfl
  | _ => cases he

/-! ### Runs of steps and ticks -/

/-- A history of `steps` steps and `ticks` ticks in some order. -/
structure Interleaves (steps ticks : Nat) (history : List Event) : Prop where
  /-- There is nothing else in it. -/
  only : ∀ e ∈ history, e = .step ∨ e = .tick
  /-- So many steps. -/
  steps : history.count .step = steps
  /-- So many ticks. -/
  ticks : history.count .tick = ticks

theorem Interleaves.perm {steps ticks : Nat} {h₁ h₂ : List Event}
    (h : Interleaves steps ticks h₁) (h' : Interleaves steps ticks h₂) : h₁.Perm h₂ := by
  refine List.perm_iff_count.2 fun e => ?_
  by_cases hs : e = .step
  · rw [hs, h.steps, h'.steps]
  by_cases ht : e = .tick
  · rw [ht, h.ticks, h'.ticks]
  have hnone : ∀ history : List Event, (∀ e ∈ history, e = .step ∨ e = .tick) →
      history.count e = 0 := fun history honly =>
    List.count_eq_zero.2 fun hmem => (honly e hmem).elim hs ht
  rw [hnone h₁ h.only, hnone h₂ h'.only]

theorem Interleaves.append {s t s' t' : Nat} {h h' : List Event} (hi : Interleaves s t h)
    (hi' : Interleaves s' t' h') : Interleaves (s + s') (t + t') (h ++ h') where
  only e he := (List.mem_append.1 he).elim (hi.only e) (hi'.only e)
  steps := by rw [List.count_append, hi.steps, hi'.steps]
  ticks := by rw [List.count_append, hi.ticks, hi'.ticks]

theorem interleaves_steps (n : Nat) : Interleaves n 0 (List.replicate n .step) where
  only _ he := .inl (List.eq_of_mem_replicate he)
  steps := List.count_replicate_self
  ticks := List.count_eq_zero.2 fun hmem => nomatch List.eq_of_mem_replicate hmem

theorem interleaves_ticks (n : Nat) : Interleaves 0 n (List.replicate n .tick) where
  only _ he := .inr (List.eq_of_mem_replicate he)
  steps := List.count_eq_zero.2 fun hmem => nomatch List.eq_of_mem_replicate hmem
  ticks := List.count_replicate_self

/-- No step of a history executes an instruction that uses the timers. -/
def LeavesTimers (m : Machine) (history : List Event) : Prop :=
  ∀ i, .ok (.executed i) ∈ m.stepResults history → i.usesTimers = false

theorem LeavesTimers.head {rest : List Event} (h : m.LeavesTimers (.step :: rest)) :
    ∀ i, m.step.1 = .ok (.executed i) → i.usesTimers = false := by
  intro i hi
  refine h i ?_
  rw [stepResults_step, hi]
  exact List.mem_cons_self

theorem LeavesTimers.tail {e : Event} {rest : List Event} (h : m.LeavesTimers (e :: rest)) :
    (m.handle e).2.LeavesTimers rest :=
  fun i hi => h i (List.mem_append_right _ hi)

theorem run_tick_step (hquiet : ∀ i, m.step.1 = .ok (.executed i) → i.usesTimers = false)
    (rest : List Event) :
    m.stepResults (.tick :: .step :: rest) = m.stepResults (.step :: .tick :: rest) ∧
      (m.run (.tick :: .step :: rest)).2 = (m.run (.step :: .tick :: rest)).2 := by
  obtain ⟨hresult, hexchange⟩ := m.tick_step
  have hleft : m.tick.step.2 = m.step.2.tick := hexchange hquiet
  constructor
  · show m.tick.step.1 :: m.tick.step.2.stepResults rest =
      m.step.1 :: m.step.2.tick.stepResults rest
    rw [hresult, hleft]
  · show (m.tick.step.2.run rest).2 = (m.step.2.tick.run rest).2
    rw [hleft]

/-- **The order of steps and ticks does not matter** to the results of the steps and to the machine
that is left, as long as the steps leave the timers to the host. -/
theorem run_perm {h₁ h₂ : List Event} (hperm : h₁.Perm h₂) :
    ∀ {m : Machine}, (∀ e ∈ h₁, e = .step ∨ e = .tick) → m.LeavesTimers h₁ →
      m.stepResults h₂ = m.stepResults h₁ ∧ (m.run h₂).2 = (m.run h₁).2 := by
  -- any order is reached by exchanges of neighbours
  induction hperm with
  | nil =>
    intro m _ _
    exact ⟨rfl, rfl⟩
  | cons e _ ih =>
    intro m honly hquiet
    obtain ⟨hresults, hlast⟩ := ih (fun e he => honly e (List.mem_cons_of_mem _ he)) hquiet.tail
    rw [stepResults, stepResults, hresults, run_cons, run_cons]
    exact ⟨rfl, hlast⟩
  | swap a b rest =>
    intro m honly hquiet
    obtain rfl | rfl := honly a (by simp)
    · obtain rfl | rfl := honly b (by simp)
      · exact ⟨rfl, rfl⟩
      · have hstep : ∀ i, m.step.1 = .ok (.executed i) → i.usesTimers = false := by
          rw [← m.tick_step.1]
          exact hquiet.tail.head
        obtain ⟨hresults, hlast⟩ := run_tick_step hstep rest
        exact ⟨hresults.symm, hlast.symm⟩
    · obtain rfl | rfl := honly b (by simp)
      · exact run_tick_step hquiet.head rest
      · exact ⟨rfl, rfl⟩
  | trans hfirst _ ih₁ ih₂ =>
    intro m honly hquiet
    obtain ⟨hresults, hlast⟩ := ih₁ honly hquiet
    have honly' := fun e he => honly e (hfirst.mem_iff.2 he)
    have hquiet' : m.LeavesTimers _ := fun i hi => hquiet i (hresults ▸ hi)
    obtain ⟨hresults', hlast'⟩ := ih₂ honly' hquiet'
    exact ⟨hresults'.trans hresults, hlast'.trans hlast⟩

theorem timers_step (hquiet : ∀ i, m.step.1 = .ok (.executed i) → i.usesTimers = false) :
    m.step.2.timers = m.timers := by
  refine step_keeps timers rfl (fun _ _ => rfl) fun i hi => ?_
  have hleaves := hquiet i hi
  cases i with
  | setDelay x | setSound x => cases hleaves
  | _ => rfl

theorem timers_run {history : List Event} (honly : ∀ e ∈ history, e = .step ∨ e = .tick)
    (hquiet : m.LeavesTimers history) :
    (m.run history).2.timers.delay.toNat = m.timers.delay.toNat - history.count .tick ∧
      (m.run history).2.timers.sound.toNat = m.timers.sound.toNat - history.count .tick := by
  induction history generalizing m with
  | nil => exact ⟨rfl, rfl⟩
  | cons e rest ih =>
    have hrest := ih (fun e he => honly e (List.mem_cons_of_mem _ he)) hquiet.tail
    obtain rfl | rfl := honly e List.mem_cons_self
    · have hkept : (m.handle .step).2.timers = m.timers := timers_step hquiet.head
      rw [hkept] at hrest
      simpa [run_cons] using hrest
    · have hdelay : (m.handle .tick).2.timers.delay.toNat = m.timers.delay.toNat - 1 :=
        Timers.toNat_countDown _
      have hsound : (m.handle .tick).2.timers.sound.toNat = m.timers.sound.toNat - 1 :=
        Timers.toNat_countDown _
      rw [hdelay, hsound] at hrest
      rw [List.count_cons_self]
      exact ⟨hrest.1.trans (by omega), hrest.2.trans (by omega)⟩

/-- **The clock and the keyboard are independent of execution.**  If the steps of a history of
steps and ticks leave the timers to the host, every other history of as many steps and ticks gives
the same results of the steps in the same order and leaves the same machine, and the timers have
counted down by the ticks.  While no register waits, a report of keys has no part in the result of
a step, and it may be exchanged with a step that executes no instruction that uses the keys. -/
theorem clock_and_keys_independent (m : Machine) :
    (∀ (steps ticks : Nat) (h₁ h₂ : List Event),
      Interleaves steps ticks h₁ → Interleaves steps ticks h₂ →
      (∀ i, .ok (.executed i) ∈ m.stepResults h₁ → i.usesTimers = false) →
        m.stepResults h₂ = m.stepResults h₁ ∧ (m.run h₂).2 = (m.run h₁).2 ∧
        (m.run h₂).2.timers.delay.toNat = m.timers.delay.toNat - ticks ∧
        (m.run h₂).2.timers.sound.toNat = m.timers.sound.toNat - ticks) ∧
    (∀ e : Event, e.isKey → m.keyWait = none →
      (m.handle e).2.step.1 = m.step.1 ∧
      ((∀ i, m.step.1 = .ok (.executed i) → i.usesKeys = false) →
        (m.handle e).2.step.2 = (m.step.2.handle e).2 ∧
        (m.step.2.handle e).1 = (m.handle e).1)) := by
  constructor
  · intro steps ticks h₁ h₂ hi₁ hi₂ hquiet
    obtain ⟨hresults, hlast⟩ := run_perm (hi₁.perm hi₂) hi₁.only hquiet
    have htimers := timers_run hi₁.only hquiet
    rw [hi₁.ticks, ← hlast] at htimers
    exact ⟨hresults, hlast, htimers⟩
  · intro e he hw
    obtain ⟨hresult, hexchange⟩ := handle_key_step he hw
    exact ⟨hresult, fun hquiet => ⟨hexchange hquiet, handle_key_reply he _ _⟩⟩

/-- Two jumps and two ticks in two orders, with the timers at 5 and 1; and a press before or after
a jump. -/
theorem clock_and_keys_independent_loop :
    let m := { ((fresh {} (.ofList [])).handle (.load [0x12, 0x00])).2 with timers := ⟨5, 1⟩ }
    let jump : StepResult := .ok (.executed (.jump 0x200))
    let h₁ : List Event := [.step, .step, .tick, .tick]
    let h₂ : List Event := [.tick, .step, .tick, .step]
    Interleaves 2 2 h₁ ∧ Interleaves 2 2 h₂ ∧ m.stepResults h₁ = [jump, jump] ∧
      m.stepResults h₂ = [jump, jump] ∧ (m.run h₂).2 = (m.run h₁).2 ∧
      (m.run h₂).2.timers.delay.toNat = 3 ∧ (m.run h₂).2.timers.sound.toNat = 0 ∧
      m.keyWait = none ∧ (m.handle (.setKey 3 true)).2.step.1 = jump ∧
      (m.handle (.setKey 3 true)).2.step.2 = (m.step.2.handle (.setKey 3 true)).2 := by
  intro m jump h₁ h₂
  have hmem : m.memory = Memory.fresh.place Memory.programStart [0x12, 0x00] := rfl
  have hw : m.keyWait = none := rfl
  have hpc : m.pc = 0x200 := rfl
  have htimers : m.timers = ⟨5, 1⟩ := rfl
  -- the rest of the machine does not matter
  clear_value m
  have hstep : m.step = (jump, m) := by
    rw [step_of_program (k := 0) (i := .jump 0x200) hmem (by decide) hw hpc (by decide) (by decide)
      rfl, effect_jump_self hpc]
  have hresults : m.stepResults h₁ = [jump, jump] := by
    rw [stepResults_step, stepResults_step, hstep, hstep, stepResults_tick, stepResults_tick]
    rfl
  have hfirst : Interleaves 2 2 h₁ := ⟨by decide, rfl, rfl⟩
  have hsecond : Interleaves 2 2 h₂ := ⟨by decide, rfl, rfl⟩
  obtain ⟨hclock, hkeys⟩ := clock_and_keys_independent m
  obtain ⟨hsame, hlast, hdelay, hsound⟩ := hclock 2 2 h₁ h₂ hfirst hsecond (by
    intro i hi
    rw [hresults] at hi
    obtain rfl : i = .jump 0x200 := by simpa [jump] using hi
    rfl)
  rw [htimers] at hdelay hsound
  obtain ⟨hresult, hexchange⟩ := hkeys (.setKey 3 true) rfl hw
  rw [hstep] at hresult
  refine ⟨hfirst, hsecond, hresults, hsame.trans hresults, hlast, hdelay, hsound, hw, hresult,
    (hexchange ?_).1⟩
  intro i hi
  rw [hstep] at hi
  obtain rfl : i = .jump 0x200 := by simpa [jump] using hi.symm
  rfl

end Machine

end Chip8
