import Chip8.Proofs.Machine.Attempt
import Chip8.Proofs.Machine.Safety

/-!
# Calls and returns

A call saves where to come back to on top of the addresses saved before, and a return takes the
latest address back.  Nothing else touches the saved addresses (`Machine.frames_step`), so what was
saved when a call was made lies at the bottom of the stack for as long as the call is open.

* `Machine.suffix_run` : the addresses that lie at the bottom stay there under every history that
  does not go below them;
* **`Machine.call_return`** : the step that closes a call is a return, goes on behind the word of
  the call, and leaves the addresses that were saved before it.
-/

namespace Chip8

namespace Machine

variable {m : Machine} {saved : List Nat}

/-- The saved addresses after a step with this result. -/
def framesAfter (m : Machine) : StepResult → List Nat
  | .ok (.executed (.call _)) => (m.pc + 2) :: m.stack.frames
  | .ok (.executed .ret) => m.stack.frames.tail
  | _ => m.stack.frames

/-- **The saved addresses change by calls and returns only**, failed or waiting steps included. -/
theorem frames_step (m : Machine) : m.step.2.stack.frames = m.framesAfter m.step.1 := by
  have hs := m.stepped
  generalize m.step = ending at hs ⊢
  cases hs with
  | @executes i m' _ _ _ he =>
    obtain ⟨-, rfl⟩ := execute_eq_ok_iff.1 he
    rw [frames_effect]
    cases i <;> rfl
  | _ => rfl

theorem frames_of_ret (h : m.step.1 = .ok (.executed .ret)) :
    m.stack.frames = m.step.2.pc :: m.step.2.stack.frames := by
  have hs := m.stepped
  generalize m.step = ending at hs h ⊢
  cases hs with
  | executes _ _ _ he =>
    obtain rfl := Outcome.executed.inj (Except.ok.inj h)
    obtain ⟨ho, rfl⟩ := execute_eq_ok_iff.1 he
    show m.stack.frames = m.stack.frames.headD (m.pc + 2) :: m.stack.frames.tail
    cases hframes : m.stack.frames with
    | nil =>
      have hempty : m.fetched.stack.depth = 0 := congrArg List.length hframes
      rw [obstacle, if_pos hempty] at ho
      cases ho
    | cons a rest => rfl
  | _ => cases h

theorem frames_handle {e : Event} (hs : e ≠ .step) (hr : e ≠ .reset) :
    (m.handle e).2.stack.frames = m.stack.frames := by
  obtain ⟨memory, timers, keypad, he⟩ := m.handle_host hs hr
  rw [he]

/-! ### What lies at the bottom -/

theorem suffix_of_not_ret (h : m.step.1 ≠ .ok (.executed .ret)) :
    m.stack.frames <:+ m.step.2.stack.frames := by
  rw [frames_step]
  generalize m.step.1 = result at h ⊢
  match result with
  | .ok (.executed i) =>
    cases i with
    | call a => exact List.suffix_cons _ _
    | ret => exact absurd rfl h
    | _ => exact List.suffix_rfl
  | .ok .waitingForKey => exact List.suffix_rfl
  | .error f => exact List.suffix_rfl

/-- A step that does not go below some saved addresses leaves them where they are. -/
theorem suffix_step (h : saved <:+ m.stack.frames) (hdeep : saved.length ≤ m.step.2.stack.depth) :
    saved <:+ m.step.2.stack.frames := by
  by_cases hret : m.step.1 = .ok (.executed .ret)
  · rw [frames_of_ret hret] at h
    -- the address that is taken back is none of them
    rcases List.suffix_cons_iff.1 h with rfl | h
    · exact absurd hdeep (Nat.not_succ_le_self _)
    · exact h
  · exact h.trans (suffix_of_not_ret hret)

/-- What lies at the bottom of the stack stays there under a history that does not go below it. -/
theorem suffix_run {history : List Event} (hr : .reset ∉ history) (h : saved <:+ m.stack.frames)
    (hdeep : ∀ k, saved.length ≤ (m.run (history.take k)).2.stack.depth) :
    saved <:+ (m.run history).2.stack.frames := by
  induction history generalizing m with
  | nil => exact h
  | cons e rest ih =>
    have he : e ≠ .reset := fun he => hr (he ▸ List.mem_cons_self)
    have hrest : .reset ∉ rest := fun hmem => hr (List.mem_cons_of_mem e hmem)
    have hfirst : saved.length ≤ (m.handle e).2.stack.depth := hdeep 1
    have hlater : ∀ k, saved.length ≤ ((m.handle e).2.run (rest.take k)).2.stack.depth :=
      fun k => hdeep (k + 1)
    have hkept : saved <:+ (m.handle e).2.stack.frames := by
      by_cases hs : e = .step
      · subst hs
        exact suffix_step h hfirst
      · rw [frames_handle hs he]
        exact h
    exact ih hrest hkept hlater

/-! ### Matching returns -/

/-- The step that goes below a saved address is a return to it. -/
theorem ret_of_depth {a : Nat} (h : a :: saved <:+ m.stack.frames)
    (hclose : m.step.2.stack.depth ≤ saved.length) :
    m.step.1 = .ok (.executed .ret) ∧ m.step.2.pc = a ∧ m.step.2.stack.frames = saved := by
  by_cases hret : m.step.1 = .ok (.executed .ret)
  · rw [frames_of_ret hret] at h
    -- as long as the whole stack, so the whole stack
    have heq := h.eq_of_length_le (Nat.succ_le_succ hclose)
    obtain ⟨hpc, hframes⟩ := List.cons.inj heq
    exact ⟨hret, hpc.symm, hframes.symm⟩
  · have hlen := (h.trans (suffix_of_not_ret hret)).length_le
    exact absurd (Nat.le_trans hlen hclose) (Nat.not_succ_le_self _)

/-- **Calls and returns match.**  Let a step of a reachable machine execute a call, and let a
history without a reset follow in which the call stays open.  Up to its end no more than sixteen
calls are open, the address behind the word of the call lies on those that were saved before it,
and a step that fails, such as a call too deep, leaves all of them.  The step that then closes the
call is a return; it goes on behind the word of the call, and the addresses saved before are left
as they were. -/
theorem call_return {m m₁ : Machine} {a : Fin 4096} (hm : m.Reachable)
    (hcall : m.step = (.ok (.executed (.call a)), m₁)) {history : List Event}
    (hr : .reset ∉ history)
    (hdeep : ∀ k, m.stack.depth + 1 ≤ (m₁.run (history.take k)).2.stack.depth) :
    let s := (m₁.run history).2
    (∀ k,
      let t := (m₁.run (history.take k)).2
      t.stack.depth ≤ 16 ∧
        (∃ inner, t.stack.frames = inner ++ (m.pc + 2) :: m.stack.frames) ∧
        ∀ f, t.step.1 = .error f → t.step.2.stack.frames = t.stack.frames) ∧
    (s.step.2.stack.depth ≤ m.stack.depth →
      s.step.1 = .ok (.executed .ret) ∧ s.step.2.pc = m.pc + 2 ∧
        s.step.2.stack.frames = m.stack.frames) := by
  intro s
  have hm₁ : m₁.Reachable := by
    have hrun : (m.run [.step]).2 = m₁ := run_of_step hcall []
    exact hrun ▸ hm.run [.step]
  have hsaved : m₁.stack.frames = (m.pc + 2) :: m.stack.frames := by
    have hframes := m.frames_step
    rw [hcall] at hframes
    exact hframes
  have hbottom : ∀ k, (m.pc + 2) :: m.stack.frames <:+
      (m₁.run (history.take k)).2.stack.frames := by
    intro k
    have hr' : .reset ∉ history.take k := fun hmem => hr (List.mem_of_mem_take hmem)
    have hdeep' : ∀ j, m.stack.depth + 1 ≤
        (m₁.run ((history.take k).take j)).2.stack.depth := by
      intro j
      rw [List.take_take]
      exact hdeep _
    exact suffix_run hr' (hsaved ▸ List.suffix_rfl) hdeep'
  constructor
  · intro k t
    obtain ⟨inner, hinner⟩ := hbottom k
    refine ⟨(hm₁.run _).bounded.depth, ⟨inner, hinner.symm⟩, fun f hf => ?_⟩
    rw [frames_step, hf]
    rfl
  · intro hclose
    have hopen := hbottom history.length
    rw [List.take_length] at hopen
    exact ret_of_depth hopen hclose

/-- A call that calls in turn: 0x200 calls 0x204, where 0x208 is called, and both return. -/
theorem call_return_nested :
    let program : List UInt8 := [0x22, 0x04, 0x12, 0x02, 0x22, 0x08, 0x00, 0xEE, 0x00, 0xEE]
    let m := ((fresh {} (.ofList [])).run [.load program]).2
    let m₁ := { m with pc := 0x204, stack := ⟨[0x202]⟩ }
    let history : List Event := [.step, .tick, .step]
    let s := (m₁.run history).2
    m.Reachable ∧ m.step = (.ok (.executed (.call 0x204)), m₁) ∧
      (∀ k, 1 ≤ (m₁.run (history.take k)).2.stack.depth) ∧
      s.step.2.stack.depth ≤ 0 ∧ s.step.1 = .ok (.executed .ret) ∧ s.step.2.pc = 0x202 ∧
      s.step.2.stack.frames = [] := by
  intro program m m₁ history s
  have hm : m.Reachable := (Reachable.fresh {} (.ofList [])).run [.load program]
  have hmem : m.memory = Memory.fresh.place Memory.programStart program := rfl
  have hw : m.keyWait = none := rfl
  have hpc : m.pc = 0x200 := rfl
  have hstack : m.stack = ⟨[]⟩ := rfl
  -- the rest of the machine does not matter
  clear_value m
  let m₂ : Machine := { m₁ with pc := 0x208, stack := ⟨[0x206, 0x202]⟩ }
  let m₃ : Machine := { m₁.tick with pc := 0x206 }
  have hcall : m.step = (.ok (.executed (.call 0x204)), m₁) := by
    have h := step_of_program (k := 0) (i := .call 0x204) hmem (by decide) hw hpc (by decide)
      (by decide) (by rw [obstacle, fetched, hstack]; rfl)
    rw [h, effect, fetched, hstack, hpc]
    rfl
  have hinner : m₁.step = (.ok (.executed (.call 0x208)), m₂) :=
    step_of_program (k := 4) hmem (by decide) hw rfl (by decide) (by decide) rfl
  have hback : m₂.tick.step = (.ok (.executed .ret), m₃) :=
    step_of_program (k := 8) hmem (by decide) hw rfl (by decide) (by decide) rfl
  have hout : m₃.step = (.ok (.executed .ret), { m₃ with pc := 0x202, stack := ⟨[]⟩ }) :=
    step_of_program (k := 6) hmem (by decide) hw rfl (by decide) (by decide) rfl
  have hs : (m₁.run history).2 = m₃ :=
    (run_of_step hinner [.tick, .step]).trans ((run_tick m₂ [.step]).trans (run_of_step hback []))
  have hdeep : ∀ k, 1 ≤ (m₁.run (history.take k)).2.stack.depth := by
    rintro (_ | _ | _ | k)
    · exact Nat.le_refl 1
    · rw [show (m₁.run (history.take 1)).2 = m₂ from run_of_step hinner []]
      exact Nat.le_add_left 1 1
    · rw [show (m₁.run (history.take 2)).2 = m₂.tick from
        (run_of_step hinner [.tick]).trans (run_tick m₂ [])]
      exact Nat.le_add_left 1 1
    · have hall : history.take (k + 3) = history := List.take_of_length_le (Nat.le_add_left 3 k)
      rw [hall, hs]
      exact Nat.le_refl 1
  have hdepth₀ : m.stack.depth = 0 := congrArg CallStack.depth hstack
  have hr : .reset ∉ history := by decide
  obtain ⟨-, hclose⟩ := call_return hm hcall hr (by rwa [hdepth₀])
  rw [hdepth₀, hpc, hstack] at hclose
  have hdone : s.step.2.stack.depth ≤ 0 := by
    rw [show s = m₃ from hs, hout]
    exact Nat.le_refl 0
  obtain ⟨hret, hnext, hframes⟩ := hclose hdone
  exact ⟨hm, hcall, hdeep, hdone, hret, hnext, hframes⟩

end Machine

end Chip8
