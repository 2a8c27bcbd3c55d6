import FormalLanguage.Grammar.Analysis

/-! Removing the non-terminals that no derivation of a word needs.

First go those that derive no word, then those that the start symbol no longer
reaches; the other way round, some of the latter would be left. A grammar without
any word has neither form. -/
namespace FormalLanguage.Grammar

/-- The grammar without the non-terminals that derive no word, and without their rules. -/
def productiveForm (g : Grammar) : Except GrammarError Grammar :=
  let productive := g.productive
  if g.start ∉ productive then .error .emptyLanguage
  else
    validate
      { nonTerminals := g.nonTerminals.filter (· ∈ productive)
        terminals := g.terminals
        rules := g.rules.filter fun r => r.head ∈ productive ∧ ∀ x ∈ r.body, x ∈ productive
        start := g.start }

/-- The grammar without the non-terminals that do not occur in what the start symbol derives. -/
def reachableForm (g : Grammar) : Except GrammarError Grammar :=
  let reachable := g.reachable
  validate
    { nonTerminals := g.nonTerminals.filter (· ∈ reachable)
      terminals := g.terminals
      rules := g.rules.filter (·.head ∈ reachable)
      start := g.start }

def reducedForm (g : Grammar) : Except GrammarError Grammar := do
  let h ← g.productiveForm
  h.reachableForm

end FormalLanguage.Grammar
