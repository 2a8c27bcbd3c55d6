import FormalLanguage.Label
import FormalLanguage.SortedSet.Basic

/-! Symbols.

A symbol is a label. The empty one is `ε`: on a transition it stands for a move
that reads nothing. Words are lists of symbols. -/
namespace FormalLanguage

structure Symbol extends Label
deriving DecidableEq

theorem Symbol.toLabel_injective {x y : Symbol} (h : x.toLabel = y.toLabel) : x = y := by
  cases x
  cases y
  cases h
  rfl

instance : Ord Symbol := ⟨compareOn Symbol.toLabel⟩

instance : Std.TransOrd Symbol := inferInstanceAs (Std.TransCmp (compareOn Symbol.toLabel))

instance : Std.LawfulEqOrd Symbol where
  eq_of_compare h := Symbol.toLabel_injective (Std.LawfulEqOrd.eq_of_compare (α := Label) h)

abbrev Word := List Symbol

abbrev SymbolSet := SortedSet Symbol

namespace Symbol

def ofChars (s : List Char) : Symbol := ⟨.ofChars s⟩

def of (s : String) : Symbol := ofChars s.toList

def epsilon : Symbol := ⟨⟨[], Text.trimmed_nil⟩⟩

instance : Inhabited Symbol := ⟨epsilon⟩

def isEpsilon (x : Symbol) : Bool := x.chars.isEmpty

theorem isEpsilon_iff {x : Symbol} : x.isEpsilon = true ↔ x = epsilon := by
  rw [isEpsilon, List.isEmpty_iff]
  exact ⟨fun h => toLabel_injective (Label.chars_injective h), fun h => h ▸ rfl⟩

theorem ofChars_chars (x : Symbol) : ofChars x.chars = x :=
  toLabel_injective x.toLabel.ofChars_chars

/-- How a symbol is shown to a reader, who could not see an empty one. -/
def shown (x : Symbol) : List Char := if x.isEpsilon then ['ε'] else x.chars

end Symbol

/-- The symbols of a word that are read. -/
def Word.letters (w : Word) : Word := w.filter fun x => !x.isEpsilon

/-- The symbols of a set that can be read. -/
def SymbolSet.letters (s : SymbolSet) : SymbolSet := s.filter fun x => !x.isEpsilon

end FormalLanguage
