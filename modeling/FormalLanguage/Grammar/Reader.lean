import FormalLanguage.Grammar.Basic
import FormalLanguage.Text.Alphanumeric

/-! Reading rules and grammars.

The text of a rule is a head, an arrow and alternatives separated by bars, each of
them `ε` or symbols separated by commas, with blanks anywhere between. It stands
for one rule for each alternative. -/
namespace FormalLanguage
open Text

namespace Rule

/-- The text before and after the first arrow. -/
def cutAtArrow? : List Char → Option (List Char × List Char)
  | [] => none
  | '-' :: '>' :: rest => some ([], rest)
  | c :: rest => (cutAtArrow? rest).map fun (before, after) => (c :: before, after)

/-- Letters, digits and underscores, and at least one of them. -/
def isHead (s : List Char) : Bool := !s.isEmpty && s.all fun c => isAlphanumeric c || c = '_'

/-- The body that an alternative stands for. -/
def readBody (s : List Char) : Except RuleFault (List Symbol) :=
  let alternative := trim s
  if alternative.isEmpty then .error .emptyAlternative
  else if alternative = ['ε'] then .ok []
  else
    let body := (alternative.splitOn ',').map Symbol.ofChars
    if body.any (·.isEpsilon) then .error .emptySymbol else .ok body

def readTrimmed (s : List Char) : Except RuleFault (List Rule) :=
  match cutAtArrow? s with
  | none => .error .missingArrow
  | some (before, after) =>
    let head := trim before
    if !isHead head then .error .invalidHead
    else do
      let bodies ← (after.splitOn '|').mapM readBody
      return bodies.map (⟨.ofChars head, ·⟩)

def parse (s : List Char) : Except GrammarError (List Rule) :=
  (readTrimmed (trim s)).mapError (.unreadableRule (trim s))

end Rule

namespace Grammar

/-- The symbols between commas. Empty ones do not count. -/
def readSymbols (s : List Char) : List Symbol :=
  ((s.splitOn ',').map Symbol.ofChars).filter fun x => !x.isEpsilon

/-- The grammar with the given symbols and the rules that the given texts stand for. -/
def parse (nonTerminals terminals : List Char) (rules : List (List Char)) (start : List Char) :
    Except GrammarError Grammar := do
  let rules ← rules.mapM Rule.parse
  ofLists (readSymbols nonTerminals) (readSymbols terminals) rules.flatten (.ofChars start)

end Grammar
end FormalLanguage
