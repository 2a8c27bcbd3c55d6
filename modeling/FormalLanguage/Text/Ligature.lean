import FormalLanguage.Text.CharWidth
import FormalLanguage.Text.Invisible

/-! Letters that are drawn as one with the letter before them.

A text is read from its end, so what counts is what the part already read begins with.
`LetterHead` names the letters that a letter put before them may join. -/
namespace FormalLanguage.Text

/-! ### The letters -/

/-- Arabic letters with the shape of alef (`Joining_Group` at `Alef`). -/
def alefRanges : CodeRanges :=
  [(0x622, 0x623), (0x625, 0x625), (0x627, 0x627), (0x671, 0x673), (0x675, 0x675), (0x773, 0x774),
    (0x870, 0x882)]

/-- Arabic letters with the shape of lam (`Joining_Group` at `Lam`). An alef after one of them
is drawn as one with it. -/
def lamRanges : CodeRanges :=
  [(0x644, 0x644), (0x6B5, 0x6B8), (0x76A, 0x76A), (0x8A6, 0x8A6), (0x8C7, 0x8C7)]

/-- The characters of no width that Arabic letters do not join across: all those without
`Joining_Type` at `Transparent`. -/
def joinBreakRanges : CodeRanges :=
  [(0x605, 0x605), (0x890, 0x891), (0x8E2, 0x8E2), (0x9BE, 0x9BE), (0x9D7, 0x9D7), (0xB3E, 0xB3E),
    (0xB57, 0xB57), (0xBBE, 0xBBE), (0xBD7, 0xBD7), (0xCC0, 0xCC0), (0xCC2, 0xCC2),
    (0xCC7, 0xCC8), (0xCCA, 0xCCB), (0xCD5, 0xCD6), (0xD3E, 0xD3E), (0xD4E, 0xD4E),
    (0xD57, 0xD57), (0xDCF, 0xDCF), (0xDDF, 0xDDF), (0x1160, 0x11FF), (0x180E, 0x180E),
    (0x1B35, 0x1B35), (0x1B3B, 0x1B3B), (0x1B3D, 0x1B3D), (0x1B43, 0x1B43), (0x200C, 0x200D),
    (0x2065, 0x2069), (0x302E, 0x302F), (0x3164, 0x3164), (0xA8FA, 0xA8FA), (0xD7B0, 0xD7C6),
    (0xD7CB, 0xD7FB), (0xFF9E, 0xFFA0), (0xFFF0, 0xFFF8), (0x111C2, 0x111C3), (0x1133E, 0x1133E),
    (0x11357, 0x11357), (0x114B0, 0x114B0), (0x114BD, 0x114BD), (0x115AF, 0x115AF),
    (0x11930, 0x11930), (0x1193F, 0x1193F), (0x11941, 0x11941), (0x11A3A, 0x11A3A),
    (0x11A84, 0x11A89), (0x11D46, 0x11D46), (0x11F02, 0x11F02), (0x1D165, 0x1D165),
    (0x1D16E, 0x1D172), (0xE0000, 0xE0000), (0xE0002, 0xE001F), (0xE0080, 0xE00FF),
    (0xE01F0, 0xE0FFF)]

/-- Khmer letters that have a form below the line. -/
def subscriptableRanges : CodeRanges :=
  [(0x1780, 0x1782), (0x1784, 0x1787), (0x1789, 0x178C), (0x178E, 0x1793), (0x1795, 0x1798),
    (0x179B, 0x179D), (0x17A0, 0x17A0), (0x17A2, 0x17A2), (0x17A7, 0x17A7), (0x17AB, 0x17AC),
    (0x17AF, 0x17AF)]

def isHebrewAlef (c : Char) : Bool := c.toNat == 0x5D0
def isHebrewLamed (c : Char) : Bool := c.toNat == 0x5DC

/-- The sign that puts the Khmer letter after it below the line. -/
def isSubscriptSign (c : Char) : Bool := c.toNat == 0x17D2

def isBugineseYa (c : Char) : Bool := c.toNat == 0x1A10
def isBugineseA (c : Char) : Bool := c.toNat == 0x1A15
def isBugineseVowelI (c : Char) : Bool := c.toNat == 0x1A17

def isTifinaghConsonant (c : Char) : Bool :=
  (0x2D31 ≤ c.toNat && c.toNat ≤ 0x2D65) || c.toNat == 0x2D6F

def isTifinaghJoiner (c : Char) : Bool := c.toNat == 0x2D7F

/-- The Lisu tone letters that stand first in a pair. -/
def isFirstLisuTone (c : Char) : Bool := 0xA4F8 ≤ c.toNat && c.toNat ≤ 0xA4FB

/-- The Lisu tone letters that stand second in a pair. -/
def isSecondLisuTone (c : Char) : Bool := 0xA4FC ≤ c.toNat && c.toNat ≤ 0xA4FD

def isOrkhonI (c : Char) : Bool := c.toNat == 0x10C03
def isOrkhonEc (c : Char) : Bool := c.toNat == 0x10C32

/-! ### Reading from the end -/

/-- The letter that a text begins with. Where there is a flag, it says that a joiner stands
before the letter. -/
inductive LetterHead where
  | arabicAlef
  | hebrewLamed (joined : Bool)
  | bugineseYa (joined : Bool)
  /-- The Buginese vowel i, a joiner and ya. -/
  | bugineseVowelAndYa
  | tifinaghConsonant (joined : Bool)
  /-- The Tifinagh joiner and a consonant. -/
  | tifinaghJoinerAndConsonant
  | secondLisuTone
  | orkhonI (joined : Bool)
  /-- A Khmer letter that has a form below the line. -/
  | subscriptable
  deriving DecidableEq

namespace LetterHead

def ofChar? (c : Char) : Option LetterHead :=
  if alefRanges.contains c then some .arabicAlef
  else if subscriptableRanges.contains c then some .subscriptable
  else if isHebrewLamed c then some (.hebrewLamed false)
  else if isBugineseYa c then some (.bugineseYa false)
  else if isTifinaghConsonant c then some (.tifinaghConsonant false)
  else if isSecondLisuTone c then some .secondLisuTone
  else if isOrkhonI c then some (.orkhonI false)
  else none

def withJoiner : LetterHead → LetterHead
  | .hebrewLamed _ => .hebrewLamed true
  | .bugineseYa _ => .bugineseYa true
  | .tifinaghConsonant _ => .tifinaghConsonant true
  | .orkhonI _ => .orkhonI true
  | head => head

/-- The columns that `c` adds by joining the letter after it, and the letter that the text
begins with then; nothing if `c` does not join it.

Of letters drawn as one, only the last takes a column. A Khmer letter below the line takes none
at all, so its sign takes back the column of the letter; the first of two consonants takes back
that of the Tifinagh joiner between them. -/
def join? (c : Char) : LetterHead → Option (Int × Option LetterHead)
  | .arabicAlef => if lamRanges.contains c then some (0, none) else none
  | .hebrewLamed joined => if joined && isHebrewAlef c then some (0, none) else none
  | .bugineseYa joined =>
    if joined && isBugineseVowelI c then some (0, some .bugineseVowelAndYa) else none
  | .bugineseVowelAndYa => if isBugineseA c then some (0, none) else none
  | .tifinaghConsonant joined =>
    if isTifinaghJoiner c then some (1, some .tifinaghJoinerAndConsonant)
    else if joined && isTifinaghConsonant c then some (0, none)
    else none
  | .tifinaghJoinerAndConsonant => if isTifinaghConsonant c then some (-1, none) else none
  | .secondLisuTone => if isFirstLisuTone c then some (0, none) else none
  | .orkhonI joined => if joined && isOrkhonEc c then some (0, none) else none
  | .subscriptable => if isSubscriptSign c then some (-1, none) else none

/-- What is left of the letter behind `c`, where `c` does not keep letters apart. -/
def behind? (c : Char) : LetterHead → Option LetterHead
  | .arabicAlef =>
    if charWidth c == 0 && !joinBreakRanges.contains c then some .arabicAlef else none
  | head =>
    if isJoiner c then some head.withJoiner
    else if isHiddenMark c then some head
    else none

/-- As `join?`, and for what stands between two letters without keeping them apart. -/
def before? (c : Char) (head : LetterHead) : Option (Int × Option LetterHead) :=
  match head.behind? c with
  | some head => some (0, some head)
  | none => head.join? c

end LetterHead

end FormalLanguage.Text
