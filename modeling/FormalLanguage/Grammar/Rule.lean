import FormalLanguage.Symbol

/-! Production rules.

Rules are ordered by head; of the rules of one head the longer ones come first,
and those of one length are in the order of their bodies, symbol by symbol. -/
namespace FormalLanguage

structure Rule where
  head : Symbol
  body : List Symbol
deriving DecidableEq

namespace Rule

def longerFirst (r s : Rule) : Ordering := compare s.body.length r.body.length

instance : Std.TransCmp longerFirst :=
  inferInstanceAs (Std.TransCmp fun r s : Rule =>
    compareOn (fun t : Rule => t.body.length) s r)

instance : Ord Rule := ⟨compareLex (compareOn head) (compareLex longerFirst (compareOn body))⟩

instance : Std.TransOrd Rule :=
  inferInstanceAs (Std.TransCmp
    (compareLex (compareOn head) (compareLex longerFirst (compareOn body))))

instance : Std.LawfulEqOrd Rule where
  eq_of_compare {r s} h := by
    obtain ⟨hhead, h⟩ := Ordering.then_eq_eq.mp h
    obtain ⟨_, hbody⟩ := Ordering.then_eq_eq.mp h
    cases r
    cases s
    obtain rfl := Std.LawfulEqOrd.eq_of_compare (α := Symbol) hhead
    obtain rfl := Std.LawfulEqOrd.eq_of_compare (α := List Symbol) hbody
    rfl

/-- The rule that derives the empty word. -/
def epsilon (head : Symbol) : Rule := ⟨head, []⟩

def isEpsilon (r : Rule) : Bool := r.body.isEmpty

/-- The symbols of the body with commas between them, or `ε`. -/
def writeBody (r : Rule) : List Char :=
  if r.isEpsilon then ['ε'] else List.intercalate [','] (r.body.map (·.chars))

def write (r : Rule) : List Char := r.head.chars ++ [' ', '-', '>', ' '] ++ r.writeBody

end Rule
end FormalLanguage
