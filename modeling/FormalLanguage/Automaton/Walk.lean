import FormalLanguage.Automaton.Basic

/-! Walks: what an automaton accepts, said without running it.

A walk is a chain of transitions of which each starts where the one before it
ends. It reads the symbols of its transitions, and an `ε` reads nothing. -/
namespace FormalLanguage.Automaton

inductive Walk (a : Automaton) : State → List Transition → State → Prop where
  | nil (q : State) : Walk a q [] q
  | cons {t : Transition} {ts : List Transition} {q : State} (ht : t ∈ a.transitions)
      (hts : Walk a t.target ts q) : Walk a t.source (t :: ts) q

/-- What a chain of transitions reads. -/
def wordOf (ts : List Transition) : Word := Word.letters (ts.map (·.symbol))

/-- Some walk from the start state to a final state reads the letters of `w`. -/
def Accepts (a : Automaton) (w : Word) : Prop :=
  ∃ ts q, a.Walk a.start ts q ∧ q ∈ a.finals ∧ wordOf ts = w.letters

theorem Walk.append {a : Automaton} {q p r : State} {ts us : List Transition}
    (h : a.Walk q ts p) (h' : a.Walk p us r) : a.Walk q (ts ++ us) r := by
  induction h with
  | nil => exact h'
  | cons ht _ ih => exact .cons ht (ih h')

theorem wordOf_append (ts us : List Transition) : wordOf (ts ++ us) = wordOf ts ++ wordOf us := by
  simp [wordOf, Word.letters]

end FormalLanguage.Automaton
