import FormalLanguage.Text.Emoji
import FormalLanguage.Text.Invisible

/-! Emoji made of several characters: a body with a skin tone, two regional indicators that
make a flag, a character with a selector that asks for a style, and emoji that joiners tie
into one picture.

A text is read from its end, so what counts is what the part already read begins with.
`EmojiHead` names the beginnings that a character put before them may join. -/
namespace FormalLanguage.Text

inductive EmojiHead where
  | picture
  | skinTone
  | indicator
  /-- Two regional indicators or more. -/
  | indicators
  /-- A selector that asks for the text style. -/
  | textStyle
  /-- A selector that asks for the emoji style. -/
  | emojiStyle
  /-- A joiner with a picture after it. -/
  | joined
  /-- A selector that asks for the emoji style, with `joined` after it. -/
  | joinedStyle
  /-- The frame of a key, with `joined` after it. -/
  | joinedKeycap
  /-- One regional indicator, with `joined` after it. -/
  | joinedIndicator
  /-- Regional indicators in pairs, with `joined` after them. -/
  | joinedPairs
  /-- Regional indicators, more than one and odd in number, with `joined` after them. -/
  | joinedPairsAndIndicator
  /-- Tags with `joined` after them: `digits` digits, then `letters` letters, then the end of the
  sequence. -/
  | joinedTags (digits letters : Nat)
  deriving DecidableEq

namespace EmojiHead

def ofChar? (c : Char) : Option EmojiHead :=
  if isRegionalIndicator c then some .indicator
  else if isSkinTone c then some .skinTone
  else if isPicture c then some .picture
  else if isTextSelector c then some .textStyle
  else if isEmojiSelector c then some .emojiStyle
  else none

/-- Tags spell the code of a region: three digits or two letters for the country, and after
those at most four letters. -/
def tag? (c : Char) (digits letters : Nat) : Option EmojiHead :=
  if isTagLetter c then
    if digits = 0 ∧ letters < 6 then some (.joinedTags 0 (letters + 1)) else none
  else if isTagDigit c then
    if digits < 3 ∧ letters ≤ 4 then some (.joinedTags (digits + 1) letters) else none
  else if isTaggedFlag c then
    if digits = 3 ∨ digits = 0 ∧ 3 ≤ letters then some .picture else none
  else none

/-- The columns that `c` adds by joining what comes after it, and what the text begins with
then; nothing if `c` does not join it.

A picture takes two columns, and what joins it takes none. Regional indicators take one column
each, but the last two before a joiner belong to the picture after it: with every pair that is
complete, the columns fall back to two for each pair but the last. -/
def before? (c : Char) : EmojiHead → Option (Int × Option EmojiHead)
  | .picture => if isJoiner c then some (0, some .joined) else none
  | .skinTone =>
    if isBody c then some (0, some .picture)
    else if isJoiner c then some (0, some .joined)
    else none
  | .indicator => if isRegionalIndicator c then some (1, some .indicators) else none
  | .indicators =>
    if isRegionalIndicator c then some (1, some .indicators)
    else if isJoiner c then some (0, some .joined)
    else none
  | .textStyle => if narrowsAsText c then some (1, none) else none
  | .emojiStyle => if isStyled c then some (2, some .picture) else none
  | .joined =>
    if isEmojiSelector c then some (0, some .joinedStyle)
    else if isKeycap c then some (0, some .joinedKeycap)
    else if isRegionalIndicator c then some (1, some .joinedIndicator)
    else if isSkinTone c then some (0, some .skinTone)
    else if isTagEnd c then some (0, some (.joinedTags 0 0))
    else if isPicture c then some (0, some .picture)
    else none
  | .joinedStyle => if isStyled c then some (0, some .picture) else none
  | .joinedKeycap => if isEmojiSelector c then some (0, some .joinedStyle) else none
  | .joinedIndicator =>
    if isRegionalIndicator c then some (-1, some .joinedPairs) else none
  | .joinedPairs =>
    if isRegionalIndicator c then some (3, some .joinedPairsAndIndicator)
    else if isJoiner c then some (0, some .joined)
    else none
  | .joinedPairsAndIndicator =>
    if isRegionalIndicator c then some (-1, some .joinedPairs)
    else if isJoiner c then some (0, some .joined)
    else none
  | .joinedTags digits letters => (tag? c digits letters).map fun head => (0, some head)

end EmojiHead

end FormalLanguage.Text
