import FormalLanguage.Exploration
import FormalLanguage.Grammar.Basic
import FormalLanguage.Saturation

/-! What the symbols of a grammar can derive and be derived from. -/
namespace FormalLanguage.Grammar

/-! ### Symbols whose derivations come to an end -/

/-- Adds the heads of the rules whose bodies are known throughout. -/
def learn (g : Grammar) (known : SymbolSet) : SymbolSet :=
  (g.rules.filter fun r => r.body.all (· ∈ known)).image (·.head) ∪ known

/-- The symbols from which rules lead to known symbols only. Each round that learns something
learns the head of a new rule. -/
def derivingOnly (g : Grammar) (known : SymbolSet) : SymbolSet :=
  saturate g.learn g.rules.size known

/-- The non-terminals that derive the empty word. -/
def nullable (g : Grammar) : SymbolSet := g.derivingOnly ∅

/-- The symbols that derive a word of terminals. -/
def productive (g : Grammar) : SymbolSet := g.derivingOnly g.terminals

/-! ### Symbols that occur in derivations -/

/-- The symbols that occur in what the start symbol derives. -/
def reachable (g : Grammar) : SymbolSet :=
  .ofList (Exploration.closure g.produced (g.nonTerminals.size + g.terminals.size) [g.start])

/-- The non-terminals that occur in what `x` derives, and `x`. -/
def descendants (g : Grammar) (x : Symbol) : List Symbol :=
  Exploration.closure (fun y => (g.produced y).filter g.isNonTerminal) g.nonTerminals.size [x]

/-- A non-terminal is recursive if it derives something in which it occurs. -/
def isRecursive (g : Grammar) (x : Symbol) : Bool :=
  g.isNonTerminal x && (g.descendants x).any fun y => x ∈ g.produced y

end FormalLanguage.Grammar
