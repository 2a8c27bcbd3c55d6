import FormalLanguage.Text.EmojiSequence
import FormalLanguage.Text.Ligature

/-! The columns that a text takes on a display with cells of one size.

A text is measured from its end. A character takes the columns that it takes when it stands
alone, unless it joins the emoji or the letter after it. A space joins nothing, so the words
of a text are measured one by one.

An escape sequence is measured character by character like everything else, although
a terminal shows none of it. Texts without control characters have none. -/
namespace FormalLanguage.Text

/-- What a text gives to the character before it. -/
structure Measure where
  columns : Int
  emoji? : Option EmojiHead
  /-- The letter at the beginning. Where a selector stands before it, that is an `emoji?`. -/
  letter? : Option LetterHead

def Measure.add (c : Char) (m : Measure) : Measure :=
  match m.emoji?.bind (EmojiHead.before? c) with
  | some (columns, emoji?) => ⟨m.columns + columns, emoji?, none⟩
  | none =>
    match m.letter?.bind (LetterHead.before? c) with
    | some (columns, letter?) => ⟨m.columns + columns, EmojiHead.ofChar? c, letter?⟩
    | none => ⟨m.columns + charWidth c, EmojiHead.ofChar? c, LetterHead.ofChar? c⟩

def measure : List Char → Measure
  | [] => ⟨0, none, none⟩
  | c :: rest => (measure rest).add c

def width (s : List Char) : Nat := (measure s).columns.toNat

end FormalLanguage.Text
