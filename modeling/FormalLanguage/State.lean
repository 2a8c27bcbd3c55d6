import FormalLanguage.Label
import FormalLanguage.Misuse
import FormalLanguage.SortedSet.Basic

/-! States and their merging.

A set of states is merged into one state by name: a single state keeps its own,
several are listed in order between braces, as in `{q0, q1}`. -/
namespace FormalLanguage

structure State extends Label
deriving DecidableEq

theorem State.toLabel_injective {p q : State} (h : p.toLabel = q.toLabel) : p = q := by
  cases p
  cases q
  cases h
  rfl

instance : Ord State := ⟨compareOn State.toLabel⟩

instance : Std.TransOrd State := inferInstanceAs (Std.TransCmp (compareOn State.toLabel))

instance : Std.LawfulEqOrd State where
  eq_of_compare h := State.toLabel_injective (Std.LawfulEqOrd.eq_of_compare (α := Label) h)

abbrev StateSet := SortedSet State

namespace State

def ofChars (s : List Char) : State := ⟨.ofChars s⟩

def of (s : String) : State := ofChars s.toList

theorem ofChars_chars (q : State) : ofChars q.chars = q :=
  toLabel_injective q.toLabel.ofChars_chars

/-! ### Merging -/

/-- The names between braces, with a comma and a space between one and the next. -/
def braced (names : List (List Char)) : List Char :=
  '{' :: List.intercalate [',', ' '] names ++ ['}']

theorem trimmed_braced (names : List (List Char)) : Text.Trimmed (braced names) where
  head c hc := by
    obtain rfl : '{' = c := Option.some.inj hc
    decide
  last c hc := by
    have : (braced names).getLast? = some '}' := List.getLast?_concat
    obtain rfl : '}' = c := Option.some.inj (this.symm.trans hc)
    decide

/-- The state that stands for a set of states. -/
def merge (s : StateSet) : State :=
  match s.toList with
  | [q] => q
  | qs => ⟨⟨braced (qs.map (·.chars)), trimmed_braced _⟩⟩

def merge? (s : StateSet) : Option State := if s.isEmpty then none else some (merge s)

/-- Merging as callers ask for it, who may not merge nothing. -/
def mergeNonempty (s : StateSet) : Except Misuse State :=
  match merge? s with
  | some q => .ok q
  | none => .error .emptyMerge

end State
end FormalLanguage
