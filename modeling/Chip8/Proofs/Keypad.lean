import Chip8.Keypad
import Mathlib.Data.List.Induction

/-!
# The keypad told from its history

A keypad is used in six ways, and what it answers is known from the uses alone.  A key is down if
the last use that concerned it moved it down.  The press that is taken belongs to the latest use
that moved a key from up to down, of those made since a press was last taken or cleared; whether a
key was up is again read off the uses before.

`turns` lists every use with all uses before it, so that both can be said without a keypad:
`lastDirection` looks for the last use that concerned a key, and `latestPress` for the latest press,
both from the end.

* `isDown_apply`, `lastPress_apply` : what one use does to the keys and to the press that is kept;
* `isDown_run`, `lastPress_run` : what all uses together leave;
* **`press_history`** : every answer of a keypad is told by its history; pressing a key that is held
  and letting go of keys leave the kept press alone.
-/

namespace Chip8

namespace Keypad

/-- One use of a keypad. -/
inductive Operation where
  /-- The host says that a key is down or up. -/
  | setKey (k : Key) (down : Bool)
  /-- A key goes down. -/
  | press (k : Key)
  /-- A key goes up. -/
  | release (k : Key)
  /-- All keys go up. -/
  | releaseAll
  /-- The kept press is taken. -/
  | takePress
  /-- The kept press is forgotten. -/
  | clearPress
  deriving DecidableEq

/-- The keypad after a use. -/
def apply (p : Keypad) : Operation → Keypad
  | .setKey k down => p.setKey k down
  | .press k => p.press k
  | .release k => p.release k
  | .releaseAll => p.releaseAll
  | .takePress => p.takePress.2
  | .clearPress => p.clearPress

/-- The keypad after many uses. -/
def run (p : Keypad) (history : List Operation) : Keypad :=
  history.foldl apply p

namespace Operation

/-- Where a use moves a key, `true` being down, if it concerns the key. -/
def direction? (k : Key) : Operation → Option Bool
  | setKey j down => if j = k then some down else none
  | press j => if j = k then some true else none
  | release j => if j = k then some false else none
  | releaseAll => some false
  | takePress => none
  | clearPress => none

/-- The key that a use moves down. -/
def pushed? : Operation → Option Key
  | setKey k true => some k
  | press k => some k
  | _ => none

/-- Whether no press is kept after a use. -/
def empties : Operation → Bool
  | takePress => true
  | clearPress => true
  | _ => false

theorem pushed?_eq_some_iff {o : Operation} {k : Key} :
    o.pushed? = some k ↔ o.direction? k = some true := by
  cases o with
  | setKey j down => cases down <;> simp [pushed?, direction?]
  | press j => simp [pushed?, direction?]
  | release j => simp [pushed?, direction?]
  | releaseAll => simp [pushed?, direction?]
  | takePress => simp [pushed?, direction?]
  | clearPress => simp [pushed?, direction?]

end Operation

/-- Where the last use that concerned a key moved it; up if there was none. -/
def lastDirection (history : List Operation) (k : Key) : Bool :=
  (history.reverse.findSome? (·.direction? k)).getD false

/-- A use with all uses before it. -/
structure Turn where
  /-- The uses before. -/
  before : List Operation
  /-- The use. -/
  operation : Operation

/-- The key that goes from up to down. -/
def Turn.pressed? (t : Turn) : Option Key :=
  t.operation.pushed?.filter fun k => !lastDirection t.before k

/-- The uses of a history in order, each with all uses before it, if some have been made already. -/
def turnsFrom (before : List Operation) : List Operation → List Turn
  | [] => []
  | o :: rest => ⟨before, o⟩ :: turnsFrom (before ++ [o]) rest

/-- The uses of a history in order, each with all uses before it. -/
def turns (history : List Operation) : List Turn :=
  turnsFrom [] history

/-- The key pressed last, of those pressed since a press was taken or cleared. -/
def latestPress (history : List Operation) : Option Key :=
  ((turns history).reverse.takeWhile fun t => !t.operation.empties).findSome? Turn.pressed?

/-! ### One use -/

theorem isDown_apply (p : Keypad) (o : Operation) (k : Key) :
    (p.apply o).isDown k = (o.direction? k).getD (p.isDown k) := by
  have hset : ∀ (j : Key) (down : Bool),
      (p.setKey j down).isDown k = (if j = k then some down else none).getD (p.isDown k) := by
    intro j down
    rw [isDown_setKey]
    by_cases h : j = k
    · rw [if_pos h, if_pos h.symm]
      rfl
    · rw [if_neg h, if_neg (Ne.symm h)]
      rfl
  cases o with
  | setKey j down => exact hset j down
  | press j => exact hset j true
  | release j => exact hset j false
  | releaseAll => exact isDown_releaseAll p k
  | takePress => rfl
  | clearPress => rfl

/-- A use that empties the keypad apart, the press of a key that was up replaces the kept one. -/
theorem lastPress_apply (p : Keypad) (o : Operation) :
    (p.apply o).lastPress =
      if o.empties then none else (o.pushed?.filter fun k => !p.isDown k).or p.lastPress := by
  have hpress : ∀ k : Key, (p.setKey k true).lastPress =
      ((some k).filter fun k => !p.isDown k).or p.lastPress := by
    intro k
    rw [setKey, Option.filter_some]
    cases p.isDown k <;> rfl
  cases o with
  | setKey k down =>
    cases down with
    | true => exact hpress k
    | false => rfl
  | press k => exact hpress k
  | release k => rfl
  | releaseAll => rfl
  | takePress => rfl
  | clearPress => rfl

/-! ### Histories -/

theorem run_append_singleton (p : Keypad) (history : List Operation) (o : Operation) :
    p.run (history ++ [o]) = (p.run history).apply o := by
  rw [run, List.foldl_append]
  rfl

theorem lastDirection_append_singleton (history : List Operation) (o : Operation) (k : Key) :
    lastDirection (history ++ [o]) k = (o.direction? k).getD (lastDirection history k) := by
  rw [lastDirection, List.reverse_append, List.reverse_singleton, List.singleton_append,
    List.findSome?_cons]
  cases o.direction? k <;> rfl

theorem turnsFrom_append_singleton (before history : List Operation) (o : Operation) :
    turnsFrom before (history ++ [o]) = turnsFrom before history ++ [⟨before ++ history, o⟩] := by
  induction history generalizing before with
  | nil =>
    rw [List.append_nil]
    rfl
  | cons first rest ih =>
    rw [List.cons_append, turnsFrom, ih, turnsFrom, List.cons_append, List.append_assoc]
    rfl

/-- One use more empties the keypad, presses a key, or leaves the press there was. -/
theorem latestPress_append_singleton (history : List Operation) (o : Operation) :
    latestPress (history ++ [o]) =
      if o.empties then none
      else (o.pushed?.filter fun k => !lastDirection history k).or (latestPress history) := by
  rw [latestPress, turns, turnsFrom_append_singleton, List.reverse_append,
    List.reverse_singleton, List.singleton_append, List.takeWhile_cons, List.nil_append]
  cases o.empties with
  | true => rfl
  | false =>
    simp only [Bool.not_false, if_true, List.findSome?_cons, Turn.pressed?]
    cases o.pushed?.filter fun k => !lastDirection history k <;> rfl

/-- A key is where the last use that concerned it moved it. -/
theorem isDown_run (history : List Operation) (k : Key) :
    (fresh.run history).isDown k = lastDirection history k := by
  -- from the end, since the last use that concerns the key decides
  induction history using List.reverseRecOn with
  | nil => exact isDown_fresh k
  | append_singleton history o ih =>
    rw [run_append_singleton, isDown_apply, lastDirection_append_singleton, ih]

/-- The press that is kept is the latest since the keypad was emptied. -/
theorem lastPress_run (history : List Operation) :
    (fresh.run history).lastPress = latestPress history := by
  induction history using List.reverseRecOn with
  | nil => rfl
  | append_singleton history o ih =>
    rw [run_append_singleton, lastPress_apply, latestPress_append_singleton, ih]
    simp only [isDown_run]

/-- **Every answer of a keypad is told by its history.**  A key is down if the last use that
concerned it moved it down.  The press that is taken is that of the key that went from up to down
last, of those that did since a press was taken or cleared, and nothing if none did.  A use that
moves no key from up to down and is not made to empty the keypad leaves what is taken: to press a
key that is held already is no press, and to let go of one key or of all neither makes a press nor
loses one. -/
theorem press_history (history : List Operation) :
    let p := fresh.run history
    (∀ k, p.isDown k = lastDirection history k) ∧
    p.takePress.1 = latestPress history ∧
    (∀ o : Operation, o.empties = false →
      (∀ k, o.direction? k = some true → lastDirection history k = true) →
      (p.apply o).takePress.1 = p.takePress.1) := by
  intro p
  refine ⟨isDown_run history, lastPress_run history, fun o ho hheld => ?_⟩
  have hnone : (o.pushed?.filter fun k => !p.isDown k) = none := by
    rw [Option.filter_eq_none_iff]
    intro k hk
    have hdown : p.isDown k = true :=
      (isDown_run history k).trans (hheld k (Operation.pushed?_eq_some_iff.1 hk))
    simp [hdown]
  have hkept : (p.apply o).lastPress = p.lastPress := by
    rw [lastPress_apply, ho, hnone]
    rfl
  exact hkept

/-- A is pressed and taken and held on, and then 3 is pressed and let go of; pressing A again or
letting go of all keys changes nothing. -/
theorem press_history_held :
    let history : List Operation :=
      [.press 10, .takePress, .setKey 10 true, .press 3, .release 3]
    let p := fresh.run history
    p.isDown 10 = true ∧ p.isDown 3 = false ∧ p.takePress.1 = some 3 ∧
      (p.press 10).takePress.1 = some 3 ∧ p.releaseAll.takePress.1 = some 3 := by
  intro history p
  obtain ⟨hkeys, htake, hkept⟩ := press_history history
  have hten : lastDirection history 10 = true := by decide
  have hthree : lastDirection history 3 = false := by decide
  have htaken : p.takePress.1 = some 3 := htake.trans (by decide)
  have hagain := hkept (.press 10) rfl (by decide)
  have hall := hkept .releaseAll rfl (by decide)
  exact ⟨(hkeys 10).trans hten, (hkeys 3).trans hthree, htaken, hagain.trans htaken,
    hall.trans htaken⟩

end Keypad

end Chip8
