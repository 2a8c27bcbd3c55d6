import FormalLanguage.Text.Blank

/-! Names of symbols and states.

A label is a text without blanks at its ends, kept as its characters and ordered
by code point. The empty label is one of them. -/
namespace FormalLanguage

structure Label where
  chars : List Char
  trimmed : Text.Trimmed chars
deriving DecidableEq

namespace Label

/-- The label of a text, which loses the blanks at its ends. -/
def ofChars (s : List Char) : Label := ⟨Text.trim s, Text.trimmed_trim s⟩

def text (l : Label) : String := String.ofList l.chars

theorem chars_injective {k l : Label} (h : k.chars = l.chars) : k = l := by
  cases k
  cases l
  cases h
  rfl

theorem ofChars_chars (l : Label) : ofChars l.chars = l :=
  chars_injective (Text.trim_eq_self l.trimmed)

instance : Ord Label := ⟨compareOn chars⟩

instance : Std.TransOrd Label := inferInstanceAs (Std.TransCmp (compareOn chars))

instance : Std.LawfulEqOrd Label where
  eq_of_compare h := chars_injective (Std.LawfulEqOrd.eq_of_compare (α := List Char) h)

end Label
end FormalLanguage
