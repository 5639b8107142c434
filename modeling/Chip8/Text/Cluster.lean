import Chip8.Text.CharSet.Emoji
import Chip8.Text.CharSet.Letter
import Chip8.Text.CharSet.Mark

/-!
# Clusters

A reader sees a letter with its accents, a Korean syllable written in parts, a flag or a family of
emoji as one character.  A cluster is such a run of characters: a text is broken before a character
unless one of the rules of `joins` ties it to what stands before it.

## Main statements

* `Text.flatten_clusters`: the clusters of a text are the text.
* `Text.clusters_of_plain`: where no character is above U+02FF, each is a cluster of its own.
-/

namespace Chip8

namespace Text

/-- The character that joins the emoji on both sides of it. -/
def joiner : Char := '\u200d'

/-- The character that keeps the letters on both sides of it apart. -/
def nonJoiner : Char := '\u200c'

/-- The colours of skin that an emoji can take. -/
def isSkinTone (c : Char) : Bool :=
  decide (0x1F3FB ≤ c.toNat) && decide (c.toNat ≤ 0x1F3FF)

/-- The letters of which two make a flag. -/
def isFlagLetter (c : Char) : Bool :=
  decide (0x1F1E6 ≤ c.toNat) && decide (c.toNat ≤ 0x1F1FF)

/-- A syllable without a final consonant: each row of 28 syllables begins with one. -/
def isOpenSyllable (c : Char) : Bool :=
  CharSet.syllable.contains c && (c.toNat - 0xAC00) % 28 == 0

namespace Cluster

/-- Whether a character extends every character before it without a column of its own. -/
def isExtending (c : Char) : Bool :=
  CharSet.extending.contains c || isSkinTone c

/-- Whether two characters are parts of one Korean syllable: initial consonants come before
vowels, and vowels before final consonants. -/
def sameSyllable (a b : Char) : Bool :=
  let final := CharSet.finalJamo.contains b
  let vowel := CharSet.vowelJamo.contains b
  if CharSet.initialJamo.contains a then
    CharSet.initialJamo.contains b || vowel || CharSet.syllable.contains b
  else if CharSet.vowelJamo.contains a || isOpenSyllable a then
    vowel || final
  else
    (CharSet.finalJamo.contains a || CharSet.syllable.contains a) && final

/-- Whether a character is the second of a pair of flag letters. -/
def closesFlag (back : List Char) (c : Char) : Bool :=
  isFlagLetter c && (back.takeWhile isFlagLetter).length % 2 == 1

/-- Whether a joiner ties a pictograph to the one before it. -/
def continuesEmoji (back : List Char) (c : Char) : Bool :=
  match back with
  | [] => false
  | last :: rest =>
    CharSet.pictograph.contains c && last == joiner &&
      (rest.dropWhile isExtending).head?.any CharSet.pictograph.contains

/-- Whether a mark can stand between the consonants of a conjunct. -/
def linksConsonants (c : Char) : Bool :=
  c == joiner || isExtending c && c != nonJoiner

/-- Whether a virama ties a consonant to the one before it. -/
def continuesConjunct (back : List Char) (c : Char) : Bool :=
  CharSet.conjunct.contains c && (back.takeWhile linksConsonants).any CharSet.virama.contains &&
    (back.dropWhile linksConsonants).head?.any CharSet.conjunct.contains

/-- Whether a character goes on with the cluster whose characters, the last one first, are
`back`. -/
def joins (back : List Char) (c : Char) : Bool :=
  !CharSet.standalone.contains c && !back.head?.any CharSet.standalone.contains &&
    (isExtending c || CharSet.spacing.contains c || c == joiner ||
      back.head?.any (fun last => CharSet.leading.contains last || sameSyllable last c) ||
      closesFlag back c || continuesEmoji back c || continuesConjunct back c)

end Cluster

/-- The clusters of a text that goes on with the cluster `back`, whose last character is first. -/
def clustersFrom (back : List Char) : List Char → List (List Char)
  | [] => [back.reverse]
  | c :: rest =>
    if Cluster.joins back c then clustersFrom (c :: back) rest
    else back.reverse :: clustersFrom [c] rest

/-- The clusters of a text. -/
def clusters : List Char → List (List Char)
  | [] => []
  | c :: rest => clustersFrom [c] rest

/-! ### The clusters of a text are the text -/

theorem flatten_clustersFrom (back text : List Char) :
    (clustersFrom back text).flatten = back.reverse ++ text := by
  induction text generalizing back with
  | nil => simp [clustersFrom]
  | cons c rest ih =>
    unfold clustersFrom
    split
    · rw [ih, List.reverse_cons, List.append_assoc, List.singleton_append]
    · rw [List.flatten_cons, ih, List.reverse_singleton, List.singleton_append]

theorem flatten_clusters (text : List Char) : (clusters text).flatten = text := by
  cases text with
  | nil => rfl
  | cons c rest => simp [clusters, flatten_clustersFrom]

/-! ### Plain text -/

/-- A character of the Latin alphabets, a digit, a common sign: nothing joins below U+0300. -/
def IsPlain (c : Char) : Prop :=
  c.toNat < 0x300

instance : DecidablePred IsPlain :=
  fun c => inferInstanceAs (Decidable (c.toNat < 0x300))

theorem joins_of_plain {a c : Char} (ha : IsPlain a) (hc : IsPlain c) :
    Cluster.joins [a] c = false := by
  unfold IsPlain at ha hc
  have small (s : CharSet) (first : Nat × Nat) (hf : s.ranges.head? = some first)
      (hl : 0x300 ≤ first.1) {x : Char} (hx : x.toNat < 0x300) : s.contains x = false :=
    CharSet.contains_eq_false_of_lt hf (by omega)
  have hj : (c == joiner) = false := by
    rw [beq_eq_false_iff_ne]
    rintro rfl
    exact absurd hc (by decide)
  have haj : (a == joiner) = false := by
    rw [beq_eq_false_iff_ne]
    rintro rfl
    exact absurd ha (by decide)
  have hs : isSkinTone c = false := by
    simp only [isSkinTone, Bool.and_eq_false_iff, decide_eq_false_iff_not]
    omega
  have hr : isFlagLetter c = false := by
    simp only [isFlagLetter, Bool.and_eq_false_iff, decide_eq_false_iff_not]
    omega
  simp [Cluster.joins, Cluster.isExtending, Cluster.sameSyllable, Cluster.closesFlag,
    Cluster.continuesEmoji, Cluster.continuesConjunct, isOpenSyllable, hj, haj, hs, hr,
    small CharSet.extending _ rfl (by decide) hc, small CharSet.spacing _ rfl (by decide) hc,
    small CharSet.leading _ rfl (by decide) ha, small CharSet.initialJamo _ rfl (by decide) ha,
    small CharSet.vowelJamo _ rfl (by decide) ha, small CharSet.syllable _ rfl (by decide) ha,
    small CharSet.finalJamo _ rfl (by decide) ha, small CharSet.conjunct _ rfl (by decide) hc]

theorem clusters_of_plain {text : List Char} (h : ∀ c ∈ text, IsPlain c) :
    clusters text = text.map ([·]) := by
  have from_plain (a : Char) (ha : IsPlain a) (rest : List Char) (hr : ∀ c ∈ rest, IsPlain c) :
      clustersFrom [a] rest = (a :: rest).map ([·]) := by
    induction rest generalizing a with
    | nil => rfl
    | cons c rest ih =>
      have hc := hr c List.mem_cons_self
      rw [clustersFrom, joins_of_plain ha hc, if_neg (by decide),
        ih c hc fun x hx => hr x (List.mem_cons_of_mem c hx)]
      rfl
  cases text with
  | nil => rfl
  | cons c rest =>
    exact from_plain c (h c List.mem_cons_self) rest fun x hx => h x (List.mem_cons_of_mem c hx)

end Text

end Chip8
