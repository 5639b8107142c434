import Chip8.Proofs.Machine.Attempt

/-!
# Waiting for a key

What the keypad tells an instruction that waits depends on how the reports of the host and the
steps alternate.  Here it is told from the history alone: `Event.keysDown` follows which keys are
down, and `presses` lists the keys that went down, each when it was up before.

While a register waits, `Machine.Awaits` relates the machine to the history since the wait began:
the kept press is the latest of the presses, and steps made before the first press change nothing.

* `Machine.isDown_handle` : the keys that are down are those of the history, whatever the machine
  does;
* `Machine.Awaits.run` : the relation is kept until a step finds a press;
* **`Machine.awaitKey_run`** : steps before the first press answer that a key is waited for, and
  the first step after it stores the latest press.
-/

namespace Chip8

namespace Event

/-- Which keys are down after an event. -/
def keysDown (down : Key → Bool) : Event → Key → Bool
  | setKey index on, k => if k.val = index then on else down k
  | releaseAllKeys, _ => false
  | reset, _ => false
  | _, k => down k

/-- The key that an event presses: it goes down and was up. -/
def press? (down : Key → Bool) : Event → Option Key
  | setKey index true =>
    if h : index < 16 then
      if down ⟨index, h⟩ then none else some ⟨index, h⟩
    else none
  | _ => none

end Event

/-- The presses of a history in order, given which keys are down at first. -/
def presses (down : Key → Bool) : List Event → List Key
  | [] => []
  | e :: rest => (e.press? down).toList ++ presses (e.keysDown down) rest

theorem presses_eq_nil_of_append {down : Key → Bool} {before after : List Event}
    (h : presses down (before ++ after) = []) : presses down before = [] := by
  induction before generalizing down with
  | nil => rfl
  | cons e before ih =>
    obtain ⟨he, hrest⟩ := List.append_eq_nil_iff.1 h
    exact List.append_eq_nil_iff.2 ⟨he, ih hrest⟩

namespace Machine

variable {m : Machine} {x : Register}

/-! ### The keypad under events -/

theorem down_step (m : Machine) : m.step.2.keypad.down = m.keypad.down :=
  step_keeps (·.keypad.down) rfl (fun _ _ => rfl) fun i _ => down_effect m.fetched i

/-- **The keys that are down are those of the history**, whatever a step does. -/
theorem isDown_handle (m : Machine) (e : Event) :
    (m.handle e).2.keypad.isDown = e.keysDown m.keypad.isDown := by
  funext k
  cases e with
  | load program => rw [handle_load, handle_loadAt]; rfl
  | loadAt program a => rw [handle_loadAt]; rfl
  | step => exact congrArg (fun down => down[k]) m.down_step
  | tick => rfl
  | setKey index on =>
    by_cases h : index < 16
    · rw [handle_setKey_of_lt m h, Keypad.isDown_setKey]
      simp only [Event.keysDown, Fin.ext_iff]
    · have hk : k.val ≠ index := fun hk => h (hk ▸ k.isLt)
      rw [handle_setKey_of_le m (Nat.not_lt.1 h), Event.keysDown, if_neg hk]
  | releaseAllKeys => exact Keypad.isDown_releaseAll _ _
  | reset => exact Keypad.isDown_fresh _

/-- Between steps the kept press is replaced by every new one, and by nothing else. -/
theorem lastPress_handle (m : Machine) {e : Event} (hs : e ≠ .step) (hr : e ≠ .reset) :
    (m.handle e).2.keypad.lastPress = (e.press? m.keypad.isDown).or m.keypad.lastPress := by
  cases e with
  | load program => rw [handle_load, handle_loadAt]; rfl
  | loadAt program a => rw [handle_loadAt]; rfl
  | step => exact absurd rfl hs
  | tick => rfl
  | setKey index on =>
    by_cases h : index < 16
    · rw [handle_setKey_of_lt m h]
      cases on with
      | false => rfl
      | true =>
        rw [Event.press?, dif_pos h, Keypad.setKey]
        cases m.keypad.isDown ⟨index, h⟩ <;> rfl
    · rw [handle_setKey_of_le m (Nat.not_lt.1 h)]
      cases on with
      | false => rfl
      | true =>
        rw [Event.press?, dif_neg h]
        rfl
  | releaseAllKeys => rfl
  | reset => exact absurd rfl hr

/-! ### While a register waits -/

/-- Register `x` waits, and since it began to, these keys have been pressed and those are down. -/
structure Awaits (m : Machine) (x : Register) (down : Key → Bool) (pressed : List Key) : Prop where
  /-- The register waits. -/
  wait : m.keyWait = some x
  /-- The keys that are down. -/
  down : m.keypad.isDown = down
  /-- The latest press is kept. -/
  press : m.keypad.lastPress = pressed.getLast?

variable {down : Key → Bool} {pressed : List Key}

theorem Awaits.step_of_nil (h : m.Awaits x down []) : m.step = (.ok .waitingForKey, m) := by
  rw [step_of_waiting h.wait, stepWaiting_of_none h.press]

theorem Awaits.step_of_press (h : m.Awaits x down pressed) {k : Key}
    (hk : pressed.getLast? = some k) :
    m.step = (.ok (.executed (.awaitKey x)), m.completed x k) := by
  rw [step_of_waiting h.wait, stepWaiting_of_some (h.press.trans hk)]

/-- An event keeps the relation, unless it is a step that finds a press. -/
theorem Awaits.handle (h : m.Awaits x down pressed) {e : Event} (hr : e ≠ .reset)
    (hs : e = .step → pressed = []) :
    (m.handle e).2.Awaits x (e.keysDown down) (pressed ++ (e.press? down).toList) := by
  have hdown := h.down
  subst hdown
  by_cases he : e = .step
  · -- no press yet, so the step only looks at the keypad
    obtain rfl := hs he
    subst he
    have hkept : (m.handle .step).2 = m := congrArg Prod.snd h.step_of_nil
    rw [hkept]
    exact h
  · refine ⟨?_, m.isDown_handle e, ?_⟩
    · obtain ⟨memory, timers, keypad, hm⟩ := m.handle_host he hr
      rw [hm]
      exact h.wait
    · rw [m.lastPress_handle he hr, h.press, List.getLast?_append]
      cases e.press? m.keypad.isDown <;> rfl

/-- A history keeps the relation, if no step of it comes after a press. -/
theorem Awaits.run (h : m.Awaits x down pressed) {history : List Event}
    (hr : .reset ∉ history)
    (hs : ∀ before after, history = before ++ .step :: after →
      pressed ++ presses down before = []) :
    ∃ down', (m.run history).2.Awaits x down' (pressed ++ presses down history) := by
  -- the presses so far and the keys down now are those of the history that has been run
  induction history generalizing m down pressed with
  | nil => exact ⟨down, by rw [presses, List.append_nil]; exact h⟩
  | cons e rest ih =>
    have he : e ≠ .reset := fun he => hr (he ▸ List.mem_cons_self)
    have hrest : .reset ∉ rest := fun hmem => hr (List.mem_cons_of_mem e hmem)
    have hquiet : e = .step → pressed = [] := by
      rintro rfl
      have hnone := hs [] rest rfl
      rwa [presses, List.append_nil] at hnone
    have hlater : ∀ before after, rest = before ++ .step :: after →
        pressed ++ (e.press? down).toList ++ presses (e.keysDown down) before = [] := by
      rintro before after rfl
      rw [List.append_assoc]
      exact hs (e :: before) after rfl
    obtain ⟨down', hlast⟩ := ih (h.handle he hquiet) hrest hlater
    refine ⟨down', ?_⟩
    rw [run_cons, presses, ← List.append_assoc]
    exact hlast

theorem awaits_of_step {m' : Machine} (hk : m.keyWait = none)
    (hstep : m.step = (.ok (.executed (.awaitKey x)), m')) :
    m'.Awaits x m.keypad.isDown [] := by
  have hs := m.stepped
  rw [hstep] at hs
  cases hs with
  | completes hw => cases hk.symm.trans hw
  | executes _ _ _ he =>
    obtain rfl := Except.ok.inj he
    exact ⟨rfl, rfl, rfl⟩

/-- **A wait is ended by the first step after a press, with the latest press**.  Let a step begin
a wait, and let any history without a reset follow.  As long as nothing has been pressed since, a
step answers that a key is waited for and changes nothing.  Once something has, and no step has
been made since, the next step completes the instruction: it stores the latest press, forgets it,
and leaves everything else.  So the register then reads as the key and the others as before. -/
theorem awaitKey_run {m m₁ : Machine} {x : Register} (hk : m.keyWait = none)
    (hstep : m.step = (.ok (.executed (.awaitKey x)), m₁)) (history : List Event)
    (hr : .reset ∉ history) :
    let s := (m₁.run history).2
    let pressed := presses m.keypad.isDown history
    (pressed = [] → s.step = (.ok .waitingForKey, s)) ∧
    ((∀ before after, history = before ++ .step :: after →
        presses m.keypad.isDown before = []) →
      ∀ k, pressed.getLast? = some k →
        s.step = (.ok (.executed (.awaitKey x)),
          { s with
            registers := s.registers.write x (UInt8.ofNat k.val)
            keypad := { s.keypad with lastPress := none }
            keyWait := none }) ∧
        s.step.2.registers.read x = UInt8.ofNat k.val ∧
        ∀ y, y ≠ x → s.step.2.registers.read y = s.registers.read y) := by
  intro s pressed
  have hbegin : m₁.Awaits x m.keypad.isDown [] := awaits_of_step hk hstep
  constructor
  · intro hnone
    have hquiet : ∀ before after, history = before ++ .step :: after →
        [] ++ presses m.keypad.isDown before = [] := by
      rintro before after rfl
      exact presses_eq_nil_of_append hnone
    obtain ⟨down, hs⟩ := hbegin.run hr hquiet
    have hwaits : s.Awaits x down ([] ++ pressed) := hs
    rw [hnone] at hwaits
    exact hwaits.step_of_nil
  · intro hquiet k hlast
    obtain ⟨down, hs⟩ := hbegin.run hr hquiet
    have hstores : s.step = (.ok (.executed (.awaitKey x)), s.completed x k) :=
      hs.step_of_press hlast
    have hregs : s.step.2.registers = s.registers.write x (UInt8.ofNat k.val) :=
      congrArg (·.2.registers) hstores
    refine ⟨hstores, ?_, ?_⟩
    · rw [hregs, Registers.read_write_self]
    · intro y hy
      rw [hregs, Registers.read_write, if_neg hy]

/-- Key 3 is held when V5 begins to wait, which is no press; then 7 is pressed, and 3 again. -/
theorem awaitKey_run_held :
    let m := ((fresh {} (.ofList [])).run [.load [0xF5, 0x0A], .setKey 3 true]).2
    let s := (m.step.2.run [.setKey 3 true]).2
    let t := (s.run [.setKey 7 true, .setKey 3 false, .tick, .setKey 3 true]).2
    m.keyWait = none ∧ m.step.1 = .ok (.executed (.awaitKey 5)) ∧
      s.step = (.ok .waitingForKey, s) ∧
      t.step = (.ok (.executed (.awaitKey 5)),
        { t with
          registers := t.registers.write 5 (UInt8.ofNat 3)
          keypad := { t.keypad with lastPress := none }
          keyWait := none }) ∧
      t.step.2.registers.read 5 = 3 ∧
      ∀ y, y ≠ 5 → t.step.2.registers.read y = t.registers.read y := by
  intro m s t
  have hword : m.word = 0xF50A := by
    have hmem : m.memory = Memory.fresh.place 0x200 [0xF5, 0x0A] := rfl
    show Word.ofBytes (m.memory.byteAt 0x200) (m.memory.byteAt 0x201) = _
    rw [hmem, Memory.byteAt_place _ _ _ (by decide), Memory.byteAt_place _ _ _ (by decide)]
    rfl
  have hd : Instruction.decode? m.word = some (.awaitKey 5) := by rw [hword]; rfl
  have hstep : m.step = (.ok (.executed (.awaitKey 5)), m.step.2) := by
    rw [step_of_running rfl, stepRunning_of_lt (by decide), perform_of_ok hd rfl]
  have hwaits := awaitKey_run rfl hstep [.setKey 3 true] (by decide)
  have hends := awaitKey_run rfl hstep
    [.setKey 3 true, .setKey 7 true, .setKey 3 false, .tick, .setKey 3 true] (by decide)
  refine ⟨rfl, congrArg Prod.fst hstep, hwaits.1 (by decide), hends.2 ?_ 3 (by decide)⟩
  intro before after h
  have hmem : .step ∈ before ++ .step :: after := List.mem_append_right before List.mem_cons_self
  rw [← h] at hmem
  exact absurd hmem (by decide)

end Machine

end Chip8
