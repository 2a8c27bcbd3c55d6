import FormalLanguage.Grammar.Rule
import FormalLanguage.SortedSet.Lemmas

/-! Context-free grammars.

A grammar is its components together with the fact that they fit: the start
symbol is a non-terminal, no symbol is both terminal and non-terminal, and rules
lead from non-terminals to symbols of the grammar. `defect?` names the first thing
wrong with components that do not fit. -/
namespace FormalLanguage

/-- What can be wrong with the text of a rule. -/
inductive RuleFault where
  | missingArrow
  | invalidHead
  | emptyAlternative
  | emptySymbol
deriving DecidableEq

inductive GrammarError where
  | unreadableRule (rule : List Char) (fault : RuleFault)
  | startNotNonTerminal (start : Symbol)
  | overlap (common : List Symbol)
  | headNotNonTerminal (rule : Rule)
  | unknownSymbol (rule : Rule) (symbol : Symbol)
  | emptyLanguage
deriving DecidableEq

def RuleFault.message : RuleFault → String
  | .missingArrow => "is missing the `->` separator"
  | .invalidHead => "must start with a single non-terminal"
  | .emptyAlternative => "contains an empty alternative, use `ε` instead"
  | .emptySymbol => "contains an empty symbol"

def GrammarError.message : GrammarError → String
  | .unreadableRule rule fault => s!"production rule `{String.ofList rule}` {fault.message}"
  | .startNotNonTerminal start =>
    s!"start symbol `{start.text}` is not an element of the non-terminals"
  | .overlap common =>
    "terminal and non-terminal symbols overlap: " ++
      String.intercalate ", " (common.map (·.text))
  | .headNotNonTerminal rule =>
    s!"production rule `{String.ofList rule.write}` must begin with a non-terminal"
  | .unknownSymbol rule symbol =>
    s!"production rule `{String.ofList rule.write}` produces `{symbol.text}`, " ++
      "which is neither terminal nor non-terminal"
  | .emptyLanguage => "the start symbol does not derive any terminal word"

structure Grammar.Components where
  nonTerminals : SymbolSet
  terminals : SymbolSet
  rules : SortedSet Rule
  start : Symbol
deriving DecidableEq

namespace Grammar.Components

/-- What makes components those of a grammar. -/
structure Valid (c : Components) : Prop where
  start_mem : c.start ∈ c.nonTerminals
  disjoint : ∀ x ∈ c.terminals, x ∉ c.nonTerminals
  head_mem : ∀ r ∈ c.rules, r.head ∈ c.nonTerminals
  body_mem : ∀ r ∈ c.rules, ∀ x ∈ r.body, x ∈ c.nonTerminals ∨ x ∈ c.terminals

/-! ### The first defect -/

def startDefect? (c : Components) : Option GrammarError :=
  if c.start ∈ c.nonTerminals then none else some (.startNotNonTerminal c.start)

def overlap? (c : Components) : Option GrammarError :=
  match c.terminals.toList.filter (· ∈ c.nonTerminals) with
  | [] => none
  | common => some (.overlap common)

def ruleDefect? (c : Components) : Option GrammarError :=
  c.rules.toList.findSome? fun r =>
    if r.head ∉ c.nonTerminals then some (.headNotNonTerminal r)
    else (r.body.find? fun x => x ∉ c.nonTerminals ∧ x ∉ c.terminals).map (.unknownSymbol r)

/-- The first rule that is broken, with the least production rule that breaks it; of one
production rule the head is looked at before the body. -/
def defect? (c : Components) : Option GrammarError :=
  c.startDefect? <|> c.overlap? <|> c.ruleDefect?

theorem startDefect?_eq_none_iff {c : Components} :
    c.startDefect? = none ↔ c.start ∈ c.nonTerminals := by
  simp [startDefect?]

theorem overlap?_eq_none_iff {c : Components} :
    c.overlap? = none ↔ ∀ x ∈ c.terminals, x ∉ c.nonTerminals := by
  have hnil : c.overlap? = none ↔ c.terminals.toList.filter (· ∈ c.nonTerminals) = [] := by
    rw [overlap?]
    split
    · next h => simp [h]
    · next h => simpa using h
  rw [hnil, List.filter_eq_nil_iff]
  simp [SortedSet.mem_toList]

theorem ruleDefect?_eq_none_iff {c : Components} :
    c.ruleDefect? = none ↔ ∀ r ∈ c.rules, r.head ∈ c.nonTerminals ∧
      ∀ x ∈ r.body, x ∈ c.nonTerminals ∨ x ∈ c.terminals := by
  rw [ruleDefect?, List.findSome?_eq_none_iff]
  refine forall_congr' fun r => imp_congr_right fun _ => ?_
  by_cases h : r.head ∈ c.nonTerminals
  · simp [h, Classical.or_iff_not_imp_left]
  · simp [h]

theorem defect?_eq_none_iff {c : Components} : c.defect? = none ↔ c.Valid := by
  simp only [defect?, Option.orElse_eq_orElse, Option.orElse_eq_or, Option.or_eq_none_iff,
    startDefect?_eq_none_iff, overlap?_eq_none_iff, ruleDefect?_eq_none_iff]
  constructor
  · rintro ⟨hstart, hdisjoint, hrules⟩
    exact ⟨hstart, hdisjoint, fun r hr => (hrules r hr).1, fun r hr => (hrules r hr).2⟩
  · rintro ⟨hstart, hdisjoint, hheads, hbodies⟩
    exact ⟨hstart, hdisjoint, fun r hr => ⟨hheads r hr, hbodies r hr⟩⟩

end Grammar.Components

structure Grammar extends Grammar.Components where
  valid : toComponents.Valid
deriving DecidableEq

namespace Grammar

def validate (c : Components) : Except GrammarError Grammar :=
  match h : c.defect? with
  | some e => .error e
  | none => .ok ⟨c, Components.defect?_eq_none_iff.mp h⟩

theorem validate_eq_ok {c : Components} (hc : c.Valid) : validate c = .ok ⟨c, hc⟩ := by
  unfold validate
  split
  · next e he =>
    rw [Components.defect?_eq_none_iff.mpr hc] at he
    cases he
  · rfl

theorem toComponents_of_validate {c : Components} {g : Grammar} (h : validate c = .ok g) :
    g.toComponents = c := by
  unfold validate at h
  split at h
  · exact absurd h (by simp)
  · rw [← Except.ok.inj h]

/-- Grammars with the same start symbol, symbols and rules are equal. -/
theorem ext_of_mem {g h : Grammar} (hstart : g.start = h.start)
    (hterminals : g.terminals = h.terminals)
    (hnonTerminals : ∀ x, x ∈ g.nonTerminals ↔ x ∈ h.nonTerminals)
    (hrules : ∀ r, r ∈ g.rules ↔ r ∈ h.rules) : g = h := by
  obtain ⟨⟨nonTerminals, terminals, rules, start⟩, valid⟩ := g
  obtain ⟨⟨nonTerminals', terminals', rules', start'⟩, valid'⟩ := h
  obtain rfl : start = start' := hstart
  obtain rfl : terminals = terminals' := hterminals
  obtain rfl : nonTerminals = nonTerminals' := SortedSet.ext hnonTerminals
  obtain rfl : rules = rules' := SortedSet.ext hrules
  rfl

/-- The grammar with the given components, listed in any order and any number of times. -/
def ofLists (nonTerminals terminals : List Symbol) (rules : List Rule) (start : Symbol) :
    Except GrammarError Grammar :=
  validate ⟨.ofList nonTerminals, .ofList terminals, .ofList rules, start⟩

def isTerminal (g : Grammar) (x : Symbol) : Bool := x ∈ g.terminals

def isNonTerminal (g : Grammar) (x : Symbol) : Bool := x ∈ g.nonTerminals

def rulesFor (g : Grammar) (x : Symbol) : SortedSet Rule := g.rules.filter (·.head = x)

/-- The symbols that the rules for `x` produce. -/
def produced (g : Grammar) (x : Symbol) : List Symbol := (g.rulesFor x).toList.flatMap (·.body)

end Grammar
end FormalLanguage
