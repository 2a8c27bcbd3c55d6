import FormalLanguage.Automaton.Basic
import FormalLanguage.Misuse
import FormalLanguage.Sampling.Draw

/-! Random automata with states `q0`, `q1`, … and lowercase letters. -/
namespace FormalLanguage.Sampling

inductive AutomatonFailure where
  | misuse (m : Misuse)
  | invalid (e : AutomatonError)
deriving DecidableEq

def numberedState (i : Nat) : State := .ofChars ('q' :: Nat.toDigits 10 i)

def numberedStates (size : Nat) : List State := (List.range size).map numberedState

def lowercase (count : Nat) : List Symbol :=
  (List.range count).map fun i => .ofChars [Char.ofNat ('a'.toNat + i)]

/-- All transitions between the states on the letters. -/
def letterTransitions (size letters : Nat) : List Transition :=
  (numberedStates size).flatMap fun p => (lowercase letters).flatMap fun x =>
    (numberedStates size).map fun q => ⟨p, x, q⟩

/-- All `ε` transitions from a state to another one. -/
def epsilonTransitions (size : Nat) : List Transition :=
  (numberedStates size).flatMap fun p =>
    ((numberedStates size).filter (· ≠ p)).map fun q => ⟨p, .epsilon, q⟩

/-- The automaton with the chosen final states and transitions. It starts in `q0`, and `ε` is in its
alphabet if one of the transitions reads nothing. -/
def assemble (size letters : Nat) (finals : List State) (reading silent : List Transition) :
    Except AutomatonError Automaton :=
  Automaton.ofLists (lowercase letters ++ silent.map (·.symbol)) (numberedStates size) finals
    (numberedState 0) (reading ++ silent)

/-- Some of the states, at least one of them. -/
def finals (size : Nat) : Draw (List State) := do
  let chosen ← keep coin (numberedStates size)
  if chosen.isEmpty then return [numberedState (← below size)] else return chosen

/-- An automaton in which each letter transition is present with the probability `density` and each
`ε` transition with the probability `epsilon`. -/
def automaton (size letters : Nat) (density epsilon : Rat) :
    Draw (Except AutomatonFailure Automaton) :=
  if size = 0 then return .error (.misuse .noStates)
  else if letters > 26 then return .error (.misuse .tooManyLetters)
  else do
    let finals ← finals size
    let reading ← keep (chance density) (letterTransitions size letters)
    let silent ← keep (chance epsilon) (epsilonTransitions size)
    return (assemble size letters finals reading silent).mapError .invalid

end FormalLanguage.Sampling
