import Chip8.Text.CharSet.Wide
import Chip8.Text.Cluster

/-!
# Columns of a terminal

A terminal shows text in columns of one width.  Most characters take one of them, ideographs and
emoji take two, and marks none; a control character counts as one.  Some characters are drawn as
one with what stands before them: the parts of an emoji, and the letters lam and alef.  Other
letters that a font may tie together count each by itself.

## Main definitions

* `Text.ownColumns`: the columns of a character by itself.
* `Text.columns`: the columns that a text takes.

## Main statements

* `Text.columns_of_plain`: plain text takes a column a character.
-/

namespace Chip8

namespace Text

/-- The columns of a character by itself. -/
def ownColumns (c : Char) : Nat :=
  if CharSet.extending.contains c || CharSet.invisible.contains c ||
      CharSet.vowelJamo.contains c || CharSet.finalJamo.contains c then 0
  else if CharSet.wide.contains c then 2
  else 1

/-- The sign that the character before it is meant as an emoji. -/
def emojiSign : Char := '\ufe0f'

/-- The digits and signs that are on the keys of a telephone. -/
def isKeycap (c : Char) : Bool :=
  c.isDigit || c == '#' || c == '*'

/-- Whether a character is shown as an emoji before the text `rest`: a wide pictograph always, any
other pictograph and a keycap before the sign of an emoji, a person before a colour of skin. -/
def isEmoji (c : Char) (rest : List Char) : Bool :=
  CharSet.pictograph.contains c && CharSet.wide.contains c ||
    (CharSet.pictograph.contains c || isKeycap c) && rest.head? == some emojiSign ||
    CharSet.person.contains c && rest.head?.any isSkinTone

/-- What a text ends in, as far as the columns of the next character depend on it. -/
inductive Ending where
  /-- Nothing that the next character is drawn into. -/
  | plain
  /-- An emoji. -/
  | emoji
  /-- The emoji of a person, whose colour of skin can follow. -/
  | person
  /-- An emoji and a joiner. -/
  | joined
  /-- The letter lam. -/
  | lam
  deriving DecidableEq

/-- Signs that are part of an emoji begun before them: the sign of an emoji, the frame of a keycap
and the tags of a flag. -/
def isEmojiPart (c : Char) : Bool :=
  c == emojiSign || c == '\u20e3' || decide (0xE0020 ≤ c.toNat) && decide (c.toNat ≤ 0xE007F)

/-- The ending after one more character that is not shown as an emoji. -/
def Ending.after (e : Ending) (c : Char) : Ending :=
  if CharSet.lam.contains c then .lam
  else match e with
    | .emoji | .person => if c = joiner then .joined else if isEmojiPart c then .emoji else .plain
    | .lam => if ownColumns c = 0 ∧ c ≠ joiner ∧ c ≠ nonJoiner then .lam else .plain
    | .plain | .joined => .plain

/-- The columns of a text after another with the given ending. -/
def columnsAfter (e : Ending) : List Char → Nat
  | [] => 0
  | c :: rest =>
    if isEmoji c rest then
      (if e = .joined then 0 else 2) +
        columnsAfter (if CharSet.person.contains c then .person else .emoji) rest
    else if e = .person && isSkinTone c then columnsAfter .emoji rest
    else if e = .lam && CharSet.alef.contains c then columnsAfter .plain rest
    else ownColumns c + columnsAfter (e.after c) rest

/-- The columns that a text takes. -/
def columns (text : List Char) : Nat :=
  columnsAfter .plain text

/-! ### Plain text -/

theorem wide_eq_false_of_plain {c : Char} (h : IsPlain c) : CharSet.wide.contains c = false :=
  CharSet.contains_eq_false_of_lt rfl (by unfold IsPlain at h; omega)

theorem ownColumns_of_plain {c : Char} (h : IsPlain c) : ownColumns c = 1 := by
  unfold IsPlain at h
  have small (s : CharSet) (first : Nat × Nat) (hf : s.ranges.head? = some first)
      (hl : 0x300 ≤ first.1) : s.contains c = false :=
    CharSet.contains_eq_false_of_lt hf (by omega)
  simp [ownColumns, wide_eq_false_of_plain h, small CharSet.extending _ rfl (by decide),
    small CharSet.invisible _ rfl (by decide), small CharSet.vowelJamo _ rfl (by decide),
    small CharSet.finalJamo _ rfl (by decide)]

theorem isEmoji_of_plain {c : Char} {rest : List Char} (hc : IsPlain c)
    (hr : ∀ d ∈ rest, IsPlain d) : isEmoji c rest = false := by
  have sign (d : Char) (hd : d ∈ rest) : (d == emojiSign) = false ∧ isSkinTone d = false := by
    have hp := hr d hd
    unfold IsPlain at hp
    constructor
    · rw [beq_eq_false_iff_ne]
      rintro rfl
      exact absurd hp (by decide)
    · simp only [isSkinTone, Bool.and_eq_false_iff, decide_eq_false_iff_not]
      omega
  rw [isEmoji, wide_eq_false_of_plain hc]
  cases rest with
  | nil => simp
  | cons d rest =>
    obtain ⟨h1, h2⟩ := sign d List.mem_cons_self
    simp_all

theorem after_of_plain {c : Char} (h : IsPlain c) : Ending.plain.after c = .plain := by
  rw [Ending.after, CharSet.contains_eq_false_of_lt rfl (by unfold IsPlain at h; omega)]
  rfl

theorem columns_of_plain {text : List Char} (h : ∀ c ∈ text, IsPlain c) :
    columns text = text.length := by
  unfold columns
  induction text with
  | nil => rfl
  | cons c rest ih =>
    have hc := h c List.mem_cons_self
    have hr : ∀ d ∈ rest, IsPlain d := fun d hd => h d (List.mem_cons_of_mem c hd)
    rw [columnsAfter, isEmoji_of_plain hc hr, after_of_plain hc, ih hr, ownColumns_of_plain hc]
    simp [Nat.add_comm]

theorem columns_singleton_of_plain {c : Char} (h : IsPlain c) : columns [c] = 1 :=
  columns_of_plain (List.forall_mem_singleton.2 h)

end Text

end Chip8
