import FormalLanguage.Grammar.Basic

/-! Writing a grammar: a line with all alternatives for each non-terminal that has
rules, the start symbol first and the others in increasing order. -/
namespace FormalLanguage.Grammar

/-- The non-terminals that have rules, in the order in which they are written. -/
def heads (g : Grammar) : List Symbol :=
  let heads := g.rules.image (·.head)
  (heads.filter (· = g.start)).toList ++ (heads.filter (· ≠ g.start)).toList

def writeRules (g : Grammar) (x : Symbol) : List Char :=
  x.chars ++ [' ', '-', '>', ' '] ++
    List.intercalate [' ', '|', ' '] ((g.rulesFor x).toList.map (·.writeBody))

/-- The text of a grammar. Every line ends in a line feed. -/
def print (g : Grammar) : List Char := g.heads.flatMap fun x => g.writeRules x ++ ['\n']

end FormalLanguage.Grammar
