import FormalLanguage.State
import FormalLanguage.Symbol

/-! Transitions, ordered by source, then symbol, then target. -/
namespace FormalLanguage

structure Transition where
  source : State
  symbol : Symbol
  target : State
deriving DecidableEq

namespace Transition

instance : Ord Transition :=
  ⟨compareLex (compareOn source) (compareLex (compareOn symbol) (compareOn target))⟩

instance : Std.TransOrd Transition :=
  inferInstanceAs (Std.TransCmp
    (compareLex (compareOn source) (compareLex (compareOn symbol) (compareOn target))))

instance : Std.LawfulEqOrd Transition where
  eq_of_compare {s t} h := by
    obtain ⟨hsource, h⟩ := Ordering.then_eq_eq.mp h
    obtain ⟨hsymbol, htarget⟩ := Ordering.then_eq_eq.mp h
    cases s
    cases t
    obtain rfl := Std.LawfulEqOrd.eq_of_compare (α := State) hsource
    obtain rfl := Std.LawfulEqOrd.eq_of_compare (α := Symbol) hsymbol
    obtain rfl := Std.LawfulEqOrd.eq_of_compare (α := State) htarget
    rfl

def isEpsilon (t : Transition) : Bool := t.symbol.isEpsilon

/-- How a transition is written in a message. -/
def text (t : Transition) : String := s!"{t.source.text} ({t.symbol.text}) -> {t.target.text}"

end Transition
end FormalLanguage
