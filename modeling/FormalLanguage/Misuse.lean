/-! Requests outside what an operation is defined for. -/
namespace FormalLanguage

inductive Misuse where
  | emptyMerge
  | noStates
  | tooManyLetters
  | invertedLengths (least most : Nat)
deriving DecidableEq

def Misuse.message : Misuse → String
  | .emptyMerge => "cannot merge an empty set of states"
  | .noStates => "an automaton needs at least one state"
  | .tooManyLetters => "only lowercase letters are used as symbols"
  | .invertedLengths least most =>
    s!"minimal word length {least} exceeds maximal length {most}"

end FormalLanguage
