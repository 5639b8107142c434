import Mathlib.Algebra.GroupWithZero.Nat
import Chip8.Proofs.Machine.Footprint

/-!
# Registers to memory and back

Registers are stored in memory as blocks at the index and loaded from there.  In the dialect whose
transfers move the index, blocks that are stored in turn lie one behind the other, and the same
transfers in the other direction, from the same place on, find each of them again.  The index goes
round where memory ends; a block that ends there is the last one that fits, so none is found at the
wrong place.

* `Machine.carryOut` : instructions in turn, with the registers changed in between;
* `Machine.carryOut_stores`, `Machine.carryOut_loads` : what transfers in turn leave;
* **`Machine.dumps_recovered`** : what has been stored is loaded, in either dialect.
-/

namespace Chip8

/-- A transfer of V0 to the last of some registers, and the values that the registers are given
before it. -/
structure Transfer where
  /-- The values of the registers. -/
  values : Registers
  /-- The last register that is transferred. -/
  last : Register

namespace Transfer

/-- The bytes that these transfers take. -/
def extent (ts : List Transfer) : Nat :=
  ((ts.map last).map fun x => x.val + 1).sum

/-- The values that these transfers store, one after another. -/
def layout (ts : List Transfer) : List UInt8 :=
  ts.flatMap fun t => t.values.firstValues t.last

/-- Changes of the registers, and stores after them. -/
def stores (ts : List Transfer) : List (Registers × Instruction) :=
  ts.map fun t => (t.values, .store t.last)

/-- Changes of the registers, and loads after them. -/
def loads (ts : List Transfer) : List (Registers × Instruction) :=
  ts.map fun t => (t.values, .load t.last)

variable {ts us : List Transfer} {j : Nat}

theorem extent_cons (t : Transfer) (rest : List Transfer) :
    extent (t :: rest) = t.last.val + 1 + extent rest := rfl

theorem layout_cons (t : Transfer) (rest : List Transfer) :
    layout (t :: rest) = t.values.firstValues t.last ++ layout rest := List.flatMap_cons

theorem length_layout (ts : List Transfer) : (layout ts).length = extent ts := by
  induction ts with
  | nil => rfl
  | cons t rest ih =>
    rw [layout_cons, List.length_append, Registers.length_firstValues, ih, extent_cons]

theorem extent_take_congr (h : us.map last = ts.map last) (j : Nat) :
    extent (us.take j) = extent (ts.take j) := by
  simp only [extent, List.map_take, h]

theorem extent_congr (h : us.map last = ts.map last) : extent us = extent ts := by
  rw [extent, extent, h]

theorem extent_take_lt (hj : j < ts.length) :
    extent (ts.take j) + (ts[j].last.val + 1) ≤ extent ts := by
  induction ts generalizing j with
  | nil => exact absurd hj (Nat.not_lt_zero j)
  | cons t rest ih =>
    cases j with
    | zero =>
      rw [List.take_zero, List.getElem_cons_zero, extent_cons]
      exact Nat.le_trans (Nat.le_of_eq (Nat.zero_add _)) (Nat.le_add_right _ _)
    | succ j =>
      have := ih (Nat.lt_of_succ_lt_succ hj)
      rw [List.take_succ_cons, List.getElem_cons_succ, extent_cons, extent_cons]
      omega

/-- The values of a transfer lie behind those of the transfers before it. -/
theorem getD_layout (hj : j < ts.length) {r : Register} (hr : r.val ≤ ts[j].last.val) :
    (layout ts).getD (extent (ts.take j) + r.val) 0 = ts[j].values.read r := by
  induction ts generalizing j with
  | nil => exact absurd hj (Nat.not_lt_zero j)
  | cons t rest ih =>
    have hlen := t.values.length_firstValues t.last
    rw [layout_cons]
    cases j with
    | zero =>
      have hzero : extent ((t :: rest).take 0) + r.val = r.val := Nat.zero_add _
      rw [List.getElem_cons_zero] at hr ⊢
      rw [hzero, List.getD_eq_getElem?_getD, List.getElem?_append_left (by omega),
        ← List.getD_eq_getElem?_getD, Registers.getD_firstValues _ hr]
    | succ j =>
      rw [List.getElem_cons_succ] at hr ⊢
      rw [List.take_succ_cons, extent_cons, List.getD_eq_getElem?_getD,
        List.getElem?_append_right (by omega), hlen, Nat.add_assoc, Nat.add_sub_cancel_left,
        ← List.getD_eq_getElem?_getD, ih (Nat.lt_of_succ_lt_succ hj) hr]

end Transfer

namespace Machine

open Transfer

variable {m : Machine} {x : Register} {ts : List Transfer}

/-- Instructions carried out in turn, each after the registers have been given other values. -/
def carryOut (m : Machine) : List (Registers × Instruction) → Except Fault Machine
  | [] => .ok m
  | (v, i) :: rest => do
    let next ← { m with registers := v }.execute i
    next.carryOut rest

theorem carryOut_append (m : Machine) (before after : List (Registers × Instruction)) :
    m.carryOut (before ++ after) = (do (← m.carryOut before).carryOut after) := by
  induction before generalizing m with
  | nil => rfl
  | cons p before ih =>
    obtain ⟨v, i⟩ := p
    simp only [List.cons_append, carryOut, ih, bind_assoc]

/-! ### One transfer -/

theorem execute_store (h : m.index + (x.val + 1) ≤ Memory.size) :
    m.execute (.store x) = .ok { m with
      memory := m.memory.place m.index (m.registers.firstValues x)
      index := m.indexPast (x.val + 1) } :=
  execute_eq_ok_iff.2 ⟨blockObstacle_of_le h, rfl⟩

theorem execute_load (h : m.index + (x.val + 1) ≤ Memory.size) :
    m.execute (.load x) = .ok { m with
      registers := m.registers.writeFirst (m.block (x.val + 1))
      index := m.indexPast (x.val + 1) } :=
  execute_eq_ok_iff.2 ⟨blockObstacle_of_le h, rfl⟩

theorem read_load (m : Machine) (x r : Register) :
    (m.registers.writeFirst (m.block (x.val + 1))).read r =
      if r.val ≤ x.val then m.memory.byteAt (m.index + r.val) else m.registers.read r := by
  rw [Registers.read_writeFirst, block, List.getD_eq_getElem?_getD, List.getElem?_map]
  split
  · next h => rw [List.getElem?_range (by omega)]; rfl
  · next h => rw [List.getElem?_eq_none (by simp; omega)]; rfl

/-- Where the index has been moved to, there is still room for what fitted behind the block. -/
theorem wrapIndex_add_le {k rest : Nat} (h : k + rest ≤ Memory.size) :
    wrapIndex k + rest ≤ Memory.size := by
  unfold wrapIndex
  omega

theorem wrapIndex_add (k rest : Nat) : wrapIndex (wrapIndex k + rest) = wrapIndex (k + rest) :=
  Nat.mod_add_mod k 4096 rest

theorem wrapIndex_of_le {k : Nat} (h : k ≤ 0xFFF) : wrapIndex k = k :=
  Nat.mod_eq_of_lt (Nat.lt_succ_of_le h)

/-- The index goes round only if there is nothing more to transfer. -/
theorem wrapIndex_eq {k rest : Nat} (hrest : 0 < rest) (h : k + rest ≤ Memory.size) :
    wrapIndex k = k := by
  have hsize : Memory.size = 4096 := rfl
  exact wrapIndex_of_le (by omega)

/-! ### Transfers in turn -/

theorem indexPast_of_advances (hd : m.dialect.loadStoreAdvancesIndex = true) (length : Nat) :
    m.indexPast length = wrapIndex (m.index + length) := if_pos hd

theorem indexPast_of_stays (hd : m.dialect.loadStoreAdvancesIndex = false) (length : Nat) :
    m.indexPast length = m.index := if_neg (ne_true_of_eq_false hd)

theorem execute_store_next (hd : m.dialect.loadStoreAdvancesIndex = true) (t : Transfer)
    (h : m.index + (t.last.val + 1) ≤ Memory.size) :
    { m with registers := t.values }.execute (.store t.last) = .ok { m with
      registers := t.values
      memory := m.memory.place m.index (t.values.firstValues t.last)
      index := wrapIndex (m.index + (t.last.val + 1)) } := by
  let before : Machine := { m with registers := t.values }
  exact (execute_store (m := before) h).trans (by rw [indexPast_of_advances (m := before) hd])

/-- Stores in turn leave their blocks one behind the other, and the index behind the last. -/
theorem carryOut_stores (ts : List Transfer) (hd : m.dialect.loadStoreAdvancesIndex = true)
    (hindex : m.index ≤ 0xFFF) (hfits : m.index + extent ts ≤ Memory.size) :
    ∃ v, m.carryOut (stores ts) = .ok { m with
      registers := v
      memory := m.memory.place m.index (layout ts)
      index := wrapIndex (m.index + extent ts) } := by
  induction ts generalizing m with
  | nil =>
    have hsame : wrapIndex (m.index + extent []) = m.index := wrapIndex_of_le hindex
    rw [hsame]
    exact ⟨m.registers, rfl⟩
  | cons t rest ih =>
    rw [extent_cons, ← Nat.add_assoc] at hfits
    have hone := execute_store_next hd t (Nat.le_trans (Nat.le_add_right _ _) hfits)
    have hplace : (m.memory.place m.index (t.values.firstValues t.last)).place
        (wrapIndex (m.index + (t.last.val + 1))) (layout rest) =
          m.memory.place m.index (layout (t :: rest)) := by
      rw [layout_cons, Memory.place_append, Registers.length_firstValues]
      rcases Nat.eq_zero_or_pos (extent rest) with hnone | hsome
      · rw [List.eq_nil_of_length_eq_zero ((length_layout rest).trans hnone)]
        rfl
      · rw [wrapIndex_eq hsome hfits]
    let next : Machine := { m with
      registers := t.values
      memory := m.memory.place m.index (t.values.firstValues t.last)
      index := wrapIndex (m.index + (t.last.val + 1)) }
    obtain ⟨v, hrest⟩ := ih (m := next) hd (wrapIndex_le _) (wrapIndex_add_le hfits)
    refine ⟨v, ?_⟩
    rw [stores, List.map_cons, carryOut, hone]
    refine hrest.trans ?_
    rw [hplace, wrapIndex_add, extent_cons, Nat.add_assoc]

theorem execute_load_next (hd : m.dialect.loadStoreAdvancesIndex = true) (t : Transfer)
    (h : m.index + (t.last.val + 1) ≤ Memory.size) :
    { m with registers := t.values }.execute (.load t.last) = .ok { m with
      registers := t.values.writeFirst (m.block (t.last.val + 1))
      index := wrapIndex (m.index + (t.last.val + 1)) } := by
  let before : Machine := { m with registers := t.values }
  exact (execute_load (m := before) h).trans (by rw [indexPast_of_advances (m := before) hd]; rfl)

/-- Loads in turn change no memory and leave the index behind the last block. -/
theorem carryOut_loads (ts : List Transfer) (hd : m.dialect.loadStoreAdvancesIndex = true)
    (hindex : m.index ≤ 0xFFF) (hfits : m.index + extent ts ≤ Memory.size) :
    ∃ v, m.carryOut (loads ts) = .ok { m with
      registers := v
      index := wrapIndex (m.index + extent ts) } := by
  induction ts generalizing m with
  | nil =>
    have hsame : wrapIndex (m.index + extent []) = m.index := wrapIndex_of_le hindex
    rw [hsame]
    exact ⟨m.registers, rfl⟩
  | cons t rest ih =>
    rw [extent_cons, ← Nat.add_assoc] at hfits
    have hone := execute_load_next hd t (Nat.le_trans (Nat.le_add_right _ _) hfits)
    let next : Machine := { m with
      registers := t.values.writeFirst (m.block (t.last.val + 1))
      index := wrapIndex (m.index + (t.last.val + 1)) }
    obtain ⟨v, hrest⟩ := ih (m := next) hd (wrapIndex_le _) (wrapIndex_add_le hfits)
    refine ⟨v, ?_⟩
    rw [loads, List.map_cons, carryOut, hone]
    refine hrest.trans ?_
    rw [wrapIndex_add, extent_cons, Nat.add_assoc]

/-- Each of some loads in turn finds its block behind those of the loads before it. -/
theorem carryOut_loads_take (hd : m.dialect.loadStoreAdvancesIndex = true)
    (hindex : m.index ≤ 0xFFF) (hfits : m.index + extent ts ≤ Memory.size) {j : Nat}
    (hj : j < ts.length) :
    ∃ n, m.carryOut (loads (ts.take (j + 1))) = .ok n ∧ n.memory = m.memory ∧
      ∀ r, n.registers.read r =
        if r.val ≤ ts[j].last.val then m.memory.byteAt (m.index + (extent (ts.take j) + r.val))
        else ts[j].values.read r := by
  have hlast := extent_take_lt hj
  obtain ⟨v, hbefore⟩ := carryOut_loads (ts.take j) hd hindex (by omega)
  have hstart : wrapIndex (m.index + extent (ts.take j)) = m.index + extent (ts.take j) :=
    wrapIndex_eq (Nat.succ_pos ts[j].last.val) (by omega)
  rw [hstart] at hbefore
  let start : Machine := { m with registers := v, index := m.index + extent (ts.take j) }
  let n : Machine := { start with
    registers := ts[j].values.writeFirst (start.block (ts[j].last.val + 1))
    index := wrapIndex (start.index + (ts[j].last.val + 1)) }
  have hroom : start.index + (ts[j].last.val + 1) ≤ Memory.size := by
    show m.index + extent (ts.take j) + (ts[j].last.val + 1) ≤ Memory.size
    omega
  have hone : start.carryOut (loads [ts[j]]) = .ok n := by
    rw [loads, List.map_singleton, carryOut, execute_load_next (m := start) hd ts[j] hroom]
    rfl
  refine ⟨n, ?_, rfl, fun r => ?_⟩
  · rw [List.take_succ_eq_append_getElem hj, loads, List.map_append, carryOut_append, ← loads,
      ← loads, hbefore]
    exact hone
  · have hread := { start with registers := ts[j].values }.read_load ts[j].last r
    rw [Nat.add_assoc] at hread
    exact hread

/-! ### What is stored and loaded -/

theorem index_carryOut (hd : m.dialect.loadStoreAdvancesIndex = false) {n : Machine}
    {script : List (Registers × Instruction)}
    (hscript : ∀ p ∈ script, ∃ x, p.2 = .store x ∨ p.2 = .load x) (h : m.carryOut script = .ok n) :
    n.index = m.index := by
  induction script generalizing m with
  | nil => cases h; rfl
  | cons p rest ih =>
    obtain ⟨v, i⟩ := p
    obtain ⟨x, hi⟩ := hscript _ List.mem_cons_self
    let before : Machine := { m with registers := v }
    cases hnext : before.execute i with
    | error f =>
      rw [carryOut, hnext] at h
      cases h
    | ok next =>
      rw [carryOut, hnext] at h
      obtain ⟨-, rfl⟩ := execute_eq_ok_iff.1 hnext
      have hindex : (before.effect i).index = m.index := by
        rw [index_effect]
        rcases hi with rfl | rfl
        · exact indexPast_of_stays (m := before) hd _
        · exact indexPast_of_stays (m := before) hd _
      have hdialect : (before.effect i).dialect = m.dialect := by
        rcases hi with rfl | rfl <;> rfl
      rw [← hindex]
      exact ih (hdialect ▸ hd) (fun p hp => hscript p (List.mem_cons_of_mem _ hp)) h

/-- A register that has been stored is found at its place. -/
theorem byteAt_of_store (h : m.index + (x.val + 1) ≤ Memory.size) {r : Register}
    (hr : r.val ≤ x.val) :
    (m.memory.place m.index (m.registers.firstValues x)).byteAt (m.index + r.val) =
      m.registers.read r := by
  have hlen := m.registers.length_firstValues x
  rw [Memory.byteAt_place _ _ _ (by omega), if_pos (by omega), Nat.add_sub_cancel_left,
    Registers.getD_firstValues _ hr]

theorem place_of_load (m : Machine) {x : Register}
    (h : m.index + (x.val + 1) ≤ Memory.size) :
    m.memory.place m.index ((m.registers.writeFirst (m.block (x.val + 1))).firstValues x) =
      m.memory := by
  have hlen := (m.registers.writeFirst (m.block (x.val + 1))).length_firstValues x
  refine Memory.ext_byteAt fun b _ => ?_
  rw [Memory.byteAt_place _ _ _ (by omega)]
  split
  · next hb =>
    have hx := x.isLt
    let r : Register := ⟨b - m.index, by omega⟩
    have hr : r.val ≤ x.val := by
      show b - m.index ≤ x.val
      omega
    have hvalue := Registers.getD_firstValues (m.registers.writeFirst (m.block (x.val + 1))) hr 0
    rw [read_load, if_pos hr] at hvalue
    have haddress : m.index + r.val = b := Nat.add_sub_cancel' hb.1
    rw [haddress] at hvalue
    exact hvalue
  · rfl

/-- **What has been stored is loaded.**  Let the index be an address.

In the dialect whose transfers move the index, let some stores in turn have room from there on, with
any changes of the registers before each.  They succeed, their blocks lie one behind the other from
the index on, and no other byte changes; the index ends behind the last block, or at zero where
memory ends.  Loads of as many registers in the same order, from the same index and again with any
changes before each, succeed and leave the index at the same place.  Each of them finds in V0 up to
its last register what these were when they were stored, and leaves the higher registers and memory
alone.

In the other dialect no transfer moves the index, and what a store has written a load finds again,
whatever has become of the registers.  In both, a store after a load at the same index leaves memory
as it was. -/
theorem dumps_recovered (m : Machine) (hindex : m.index ≤ 0xFFF) :
    (m.dialect.loadStoreAdvancesIndex = true → ∀ dumps : List Transfer,
      m.index + extent dumps ≤ Memory.size →
        ∃ m', m.carryOut (stores dumps) = .ok m' ∧
          (∀ b, m'.memory.byteAt b =
            if m.index ≤ b ∧ b < m.index + extent dumps then (layout dumps).getD (b - m.index) 0
            else m.memory.byteAt b) ∧
          m'.index = (m.index + extent dumps) % 4096 ∧
          ∀ (n : Machine) (ts : List Transfer), n.memory = m'.memory → n.index = m.index →
            n.dialect = m'.dialect → ts.map last = dumps.map last →
              (∃ n', n.carryOut (loads ts) = .ok n' ∧ n'.index = m'.index) ∧
              ∀ j (hj : j < dumps.length) (hj' : j < ts.length),
                ∃ n', n.carryOut (loads (ts.take (j + 1))) = .ok n' ∧ n'.memory = m'.memory ∧
                  ∀ r : Register, n'.registers.read r =
                    if r.val ≤ dumps[j].last.val then dumps[j].values.read r
                    else ts[j].values.read r) ∧
    (m.dialect.loadStoreAdvancesIndex = false →
      (∀ (script : List (Registers × Instruction)) (m' : Machine),
        (∀ p ∈ script, ∃ x, p.2 = .store x ∨ p.2 = .load x) → m.carryOut script = .ok m' →
          m'.index = m.index) ∧
      ∀ x : Register, m.index + x.val + 1 ≤ Memory.size →
        ∃ m', m.execute (.store x) = .ok m' ∧ ∀ v,
          ∃ m'', { m' with registers := v }.execute (.load x) = .ok m'' ∧
            ∀ r : Register, r.val ≤ x.val → m''.registers.read r = m.registers.read r) ∧
    ∀ (x : Register) (m' : Machine), m.execute (.load x) = .ok m' →
      ∃ m'', { m' with index := m.index }.execute (.store x) = .ok m'' ∧ m''.memory = m.memory := by
  refine ⟨fun hd dumps hfits => ?_, fun hd => ⟨fun script m' hscript h => ?_, fun x hx => ?_⟩,
    fun x m' h => ?_⟩
  · obtain ⟨v, hstored⟩ := carryOut_stores dumps hd hindex hfits
    have hbytes := Memory.byteAt_place m.memory m.index (layout dumps)
      (by rw [length_layout]; exact hfits)
    rw [length_layout] at hbytes
    refine ⟨_, hstored, hbytes, rfl, fun n ts hmemory hn hdialect hlast => ?_⟩
    rw [← extent_congr hlast] at hfits ⊢
    rw [← hn] at hfits hindex
    have hd' : n.dialect.loadStoreAdvancesIndex = true := hdialect ▸ hd
    obtain ⟨w, hloaded⟩ := carryOut_loads ts hd' hindex hfits
    refine ⟨⟨_, hloaded, by rw [hn]⟩, fun j hj hj' => ?_⟩
    obtain ⟨n', hn', hkept, hread⟩ := carryOut_loads_take hd' hindex hfits hj'
    have hsame : ts[j].last = dumps[j].last := by
      have := congrArg (fun l => l[j]?) hlast
      simpa [hj, hj'] using this
    have hoffset := extent_take_lt hj
    rw [extent_congr hlast] at hfits
    refine ⟨n', hn', hkept.trans hmemory, fun r => ?_⟩
    rw [hread, hsame, extent_take_congr hlast]
    split
    · next hr =>
      rw [hmemory, hbytes, hn, if_pos (by omega), Nat.add_sub_cancel_left, getD_layout hj hr]
    · rfl
  · exact index_carryOut hd hscript h
  · let stored : Machine := { m with
      memory := m.memory.place m.index (m.registers.firstValues x)
      index := m.indexPast (x.val + 1) }
    have hsame : stored.index = m.index := indexPast_of_stays hd _
    refine ⟨stored, execute_store hx, fun v => ?_⟩
    let changed : Machine := { stored with registers := v }
    have hroom : changed.index + (x.val + 1) ≤ Memory.size := hsame ▸ hx
    refine ⟨_, execute_load hroom, fun r hr => ?_⟩
    refine (changed.read_load x r).trans ?_
    rw [if_pos hr, show changed.index = m.index from hsame]
    exact byteAt_of_store hx hr
  · obtain ⟨ho, rfl⟩ := execute_eq_ok_iff.1 h
    have hx := le_of_blockObstacle (m := m) ho
    let back : Machine := { m.effect (.load x) with index := m.index }
    exact ⟨_, execute_store (m := back) hx, place_of_load m hx⟩

/-- V0 and V1, and then V0 to V3 with other values, are stored in the last six bytes of memory and
loaded again; the index goes round both times. -/
theorem dumps_recovered_end :
    let m := { fresh { loadStoreAdvancesIndex := true } (.ofList []) with index := 0xFFA }
    let v := (Registers.zero.write 0 1).write 1 2
    let w := (Registers.zero.write 0 3).write 3 4
    let dumps : List Transfer := [⟨v, 1⟩, ⟨w, 3⟩]
    let ts : List Transfer := [⟨.zero, 1⟩, ⟨.zero, 3⟩]
    m.index ≤ 0xFFF ∧ m.dialect.loadStoreAdvancesIndex = true ∧
      m.index + extent dumps ≤ Memory.size ∧
      ∃ m', m.carryOut (stores dumps) = .ok m' ∧ m'.index = 0 ∧
        m'.memory.byteAt 0xFFB = 2 ∧ m'.memory.byteAt 0xFFF = 4 ∧
        ∃ n, { m' with index := 0xFFA }.carryOut (loads (ts.take 2)) = .ok n ∧
          n.registers.read 0 = 3 ∧ n.registers.read 3 = 4 ∧ n.registers.read 4 = 0 := by
  intro m v w dumps ts
  have hindex : m.index ≤ 0xFFF := by decide
  have hfits : m.index + extent dumps ≤ Memory.size := by decide
  obtain ⟨hmoves, -⟩ := dumps_recovered m hindex
  obtain ⟨m', hstored, hbytes, hround, hloads⟩ := hmoves rfl dumps hfits
  let back : Machine := { m' with index := 0xFFA }
  obtain ⟨-, heach⟩ := hloads back ts rfl rfl rfl rfl
  obtain ⟨n, hn, -, hread⟩ := heach 1 (by decide) (by decide)
  have hzero : (m.index + extent dumps) % 4096 = 0 := by decide
  exact ⟨hindex, rfl, hfits, m', hstored, hround.trans hzero, hbytes 0xFFB, hbytes 0xFFF,
    n, hn, hread 0, hread 3, hread 4⟩

end Machine

end Chip8
