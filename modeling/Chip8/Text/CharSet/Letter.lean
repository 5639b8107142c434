import Chip8.Text.CharSet

/-!
# Letters that join their neighbours

The parts of Korean syllables, the consonants of the Indic scripts that a virama ties to the next
one, and the Arabic letters that are written as one.
-/

namespace Chip8

namespace Text

namespace CharSet

/-- Initial consonants of a syllable. -/
def initialJamo : CharSet where
  ranges :=
    [(0x1100, 0x115F), (0xA960, 0xA97C)]

/-- Vowels of a syllable. -/
def vowelJamo : CharSet where
  ranges :=
    [(0x1160, 0x11A7), (0xD7B0, 0xD7C6)]

/-- Final consonants of a syllable. -/
def finalJamo : CharSet where
  ranges :=
    [(0x11A8, 0x11FF), (0xD7CB, 0xD7FB)]

/-- Whole syllables. -/
def syllable : CharSet where
  ranges :=
    [(0xAC00, 0xD7A3)]

/-- Consonants that a virama before them ties to the consonant before it. -/
def conjunct : CharSet where
  ranges :=
    [(0x0915, 0x0939), (0x0958, 0x095F), (0x0978, 0x097F), (0x0995, 0x09A8), (0x09AA, 0x09B0),
     (0x09B2, 0x09B2), (0x09B6, 0x09B9), (0x09DC, 0x09DD), (0x09DF, 0x09DF), (0x09F0, 0x09F1),
     (0x0A95, 0x0AA8), (0x0AAA, 0x0AB0), (0x0AB2, 0x0AB3), (0x0AB5, 0x0AB9), (0x0AF9, 0x0AF9),
     (0x0B15, 0x0B28), (0x0B2A, 0x0B30), (0x0B32, 0x0B33), (0x0B35, 0x0B39), (0x0B5C, 0x0B5D),
     (0x0B5F, 0x0B5F), (0x0B71, 0x0B71), (0x0C15, 0x0C28), (0x0C2A, 0x0C39), (0x0C58, 0x0C5A),
     (0x0D15, 0x0D3A)]

/-- The viramas of these scripts. -/
def virama : CharSet where
  ranges :=
    [(0x094D, 0x094D), (0x09CD, 0x09CD), (0x0ACD, 0x0ACD), (0x0B4D, 0x0B4D), (0x0C4D, 0x0C4D),
     (0x0D4D, 0x0D4D)]

/-- The Arabic letters of the shape of lam. -/
def lam : CharSet where
  ranges :=
    [(0x0644, 0x0644), (0x06B5, 0x06B8), (0x076A, 0x076A), (0x08A6, 0x08A6), (0x08C7, 0x08C7)]

/-- The Arabic letters of the shape of alef. -/
def alef : CharSet where
  ranges :=
    [(0x0622, 0x0623), (0x0625, 0x0625), (0x0627, 0x0627), (0x0671, 0x0673), (0x0675, 0x0675),
     (0x0773, 0x0774), (0x0870, 0x0882)]

end CharSet

end Text

end Chip8
