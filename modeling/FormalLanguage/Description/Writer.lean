import FormalLanguage.Automaton.Successors
import FormalLanguage.Description.Basic

/-! Writing a description: a line for each state, in increasing order, with all its
transitions in increasing order. Names start in one column unless the state is
both start and final. -/
namespace FormalLanguage

namespace Description

def Role.written : Role → List Char
  | ⟨true, true⟩ => ['-', '>', '*', ' ']
  | ⟨true, false⟩ => ['-', '>', ' ']
  | ⟨false, true⟩ => [' ', '*', ' ']
  | ⟨false, false⟩ => [' ', ' ', ' ']

def writeMove (t : Transition) : List Char :=
  '"' :: t.symbol.chars ++ ['"', ' ', '-', '>', ' '] ++ t.target.chars

def writeMoves : List Transition → List Char
  | [] => []
  | ts => [' ', ':', ' '] ++ List.intercalate [',', ' '] (ts.map writeMove)

end Description

namespace Automaton
open Description

def role (a : Automaton) (q : State) : Role := ⟨q = a.start, a.isFinal q⟩

def writeState (a : Automaton) (q : State) : List Char :=
  (a.role q).written ++ q.chars ++ writeMoves (a.transitionsFrom q).toList

/-- The description of an automaton. Every line ends in a line feed. -/
def print (a : Automaton) : List Char := a.states.toList.flatMap fun q => a.writeState q ++ ['\n']

end Automaton
end FormalLanguage
