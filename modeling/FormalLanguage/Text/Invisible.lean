import FormalLanguage.Text.CodeRange

/-! Characters that are not shown and yet change how the characters beside them are drawn. -/
namespace FormalLanguage.Text

/-- The character that asks for the two beside it to be drawn as one. -/
def isJoiner (c : Char) : Bool := c.toNat == 0x200D

/-- After an emoji: draw it in the style of a text. -/
def isTextSelector (c : Char) : Bool := c.toNat == 0xFE0E

/-- After a character that has an emoji style: draw it in that style. -/
def isEmojiSelector (c : Char) : Bool := c.toNat == 0xFE0F

/-- Combining marks that are not shown, the selectors among them. -/
def hiddenMarkRanges : CodeRanges :=
  [(0x34F, 0x34F), (0x17B4, 0x17B5), (0x180B, 0x180D), (0x180F, 0x180F), (0xFE00, 0xFE0F),
    (0xE0100, 0xE01EF)]

def isHiddenMark (c : Char) : Bool := hiddenMarkRanges.contains c

end FormalLanguage.Text
