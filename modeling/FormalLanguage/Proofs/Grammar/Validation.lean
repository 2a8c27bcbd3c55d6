import FormalLanguage.Proofs.Grammar.RuleOrder

/-! What makes a grammar of listed components.

As with automata, only the sets of what is listed count: components that fit make a
grammar (`Fits`), and of others one defect is reported (`FirstDefect`), the same for
every order of the lists (`ofLists_outcome`). Of the rules that do not fit the first
one in the order of rules is named, with its head if that is no non-terminal, and
else with the leftmost symbol of its body that is unknown. -/
namespace FormalLanguage

namespace Grammar

section Listed
variable (nonTerminals terminals : List Symbol) (rules : List Rule) (start : Symbol)

/-! ### Listed components -/

/-- What makes listed components those of a grammar. -/
structure Fits : Prop where
  start_mem : start ∈ nonTerminals
  disjoint : ∀ x ∈ terminals, x ∉ nonTerminals
  head_mem : ∀ r ∈ rules, r.head ∈ nonTerminals
  body_mem : ∀ r ∈ rules, ∀ x ∈ r.body, x ∈ nonTerminals ∨ x ∈ terminals

/-- The grammar has what is listed and nothing else. -/
structure HasListed (g : Grammar) : Prop where
  nonTerminals_iff : ∀ x, x ∈ g.nonTerminals ↔ x ∈ nonTerminals
  terminals_iff : ∀ x, x ∈ g.terminals ↔ x ∈ terminals
  rules_iff : ∀ r, r ∈ g.rules ↔ r ∈ rules
  start_eq : g.start = start

def Unknown (x : Symbol) : Prop := x ∉ nonTerminals ∧ x ∉ terminals

/-- The head of the rule is no non-terminal, or its body has an unknown symbol. -/
def Misfit (r : Rule) : Prop :=
  r.head ∉ nonTerminals ∨ ∃ x ∈ r.body, Unknown nonTerminals terminals x

/-- The defect that is reported of listed components that do not fit. -/
inductive FirstDefect : GrammarError → Prop where
  | startNotNonTerminal (hstart : start ∉ nonTerminals) : FirstDefect (.startNotNonTerminal start)
  | overlap {common : List Symbol} (hstart : start ∈ nonTerminals) (hne : common ≠ [])
      (hcommon : ∀ x, x ∈ common ↔ x ∈ terminals ∧ x ∈ nonTerminals)
      (hincreasing : Increasing common) : FirstDefect (.overlap common)
  | headNotNonTerminal {r : Rule} (hstart : start ∈ nonTerminals)
      (hdisjoint : ∀ x ∈ terminals, x ∉ nonTerminals)
      (hr : Least Rule.Precedes (Misfit nonTerminals terminals) rules r)
      (hhead : r.head ∉ nonTerminals) : FirstDefect (.headNotNonTerminal r)
  | unknownSymbol {r : Rule} {before after : List Symbol} {x : Symbol}
      (hstart : start ∈ nonTerminals) (hdisjoint : ∀ x ∈ terminals, x ∉ nonTerminals)
      (hr : Least Rule.Precedes (Misfit nonTerminals terminals) rules r)
      (hhead : r.head ∈ nonTerminals) (hbody : r.body = before ++ x :: after)
      (hbefore : ∀ y ∈ before, ¬ Unknown nonTerminals terminals y)
      (hx : Unknown nonTerminals terminals x) : FirstDefect (.unknownSymbol r x)

def listed : Components :=
  ⟨.ofList nonTerminals, .ofList terminals, .ofList rules, start⟩

end Listed

variable {nonTerminals terminals : List Symbol} {rules : List Rule} {start : Symbol} {g : Grammar}
  {e : GrammarError}

theorem valid_listed_iff : (listed nonTerminals terminals rules start).Valid ↔
    Fits nonTerminals terminals rules start := by
  constructor
  · rintro ⟨hstart, hdisjoint, hheads, hbodies⟩
    simp only [listed, SortedSet.mem_ofList] at *
    exact ⟨hstart, hdisjoint, hheads, hbodies⟩
  · rintro ⟨hstart, hdisjoint, hheads, hbodies⟩
    refine ⟨?_, ?_, ?_, ?_⟩ <;> simp only [listed, SortedSet.mem_ofList]
    · exact hstart
    · exact hdisjoint
    · exact hheads
    · exact hbodies

theorem hasListed_of_ofLists (h : ofLists nonTerminals terminals rules start = .ok g) :
    HasListed nonTerminals terminals rules start g := by
  have hg : g.toComponents = listed nonTerminals terminals rules start := toComponents_of_validate h
  constructor <;> simp [hg, listed]

/-! ### The defect that is reported -/

theorem startDefect?_listed : (listed nonTerminals terminals rules start).startDefect? = some e ↔
    start ∉ nonTerminals ∧ .startNotNonTerminal start = e := by
  simp [Components.startDefect?, listed]

theorem overlap?_listed : (listed nonTerminals terminals rules start).overlap? = some e ↔
    ∃ common, common ≠ [] ∧ (∀ x, x ∈ common ↔ x ∈ terminals ∧ x ∈ nonTerminals) ∧
      Increasing common ∧ .overlap common = e := by
  let shared := (SortedSet.ofList terminals).filter (· ∈ SortedSet.ofList nonTerminals)
  have hshared : ∀ x, x ∈ shared.toList ↔ x ∈ terminals ∧ x ∈ nonTerminals := fun x => by
    simp [shared, SortedSet.mem_toList]
  rw [Components.overlap?]
  constructor
  · intro h
    split at h
    · cases h
    · next hne => exact ⟨shared.toList, hne, hshared, shared.increasing, Option.some.inj h⟩
  · rintro ⟨common, hne, hcommon, hincreasing, rfl⟩
    have hsame : shared.toList = common := SortedSet.eq_of_increasing shared.increasing hincreasing
      fun x => (hshared x).trans (hcommon x).symm
    split
    · next hnil => exact absurd (hsame.symm.trans hnil) hne
    · exact congrArg (some ∘ GrammarError.overlap) hsame

theorem find?_unknown_iff {body : List Symbol} {x : Symbol} :
    (body.find? fun x => x ∉ SortedSet.ofList nonTerminals ∧ x ∉ SortedSet.ofList terminals) =
      some x ↔ ∃ before after, body = before ++ x :: after ∧
        (∀ y ∈ before, ¬ Unknown nonTerminals terminals y) ∧ Unknown nonTerminals terminals x := by
  have hunknown : ∀ y, decide (y ∉ SortedSet.ofList nonTerminals ∧ y ∉ SortedSet.ofList terminals) =
      true ↔ Unknown nonTerminals terminals y := fun y => by simp [Unknown]
  simp only [List.find?_eq_some_iff_append, Bool.not_eq_true', ← Bool.not_eq_true, hunknown]
  constructor
  · rintro ⟨hx, before, after, hbody, hbefore⟩
    exact ⟨before, after, hbody, hbefore, hx⟩
  · rintro ⟨before, after, hbody, hbefore, hx⟩
    exact ⟨hx, before, after, hbody, hbefore⟩

theorem ruleDefect?_listed : (listed nonTerminals terminals rules start).ruleDefect? = some e ↔
    ∃ r, Least Rule.Precedes (Misfit nonTerminals terminals) rules r ∧
      (r.head ∉ nonTerminals ∧ .headNotNonTerminal r = e ∨ r.head ∈ nonTerminals ∧
        ∃ x, (∃ before after, r.body = before ++ x :: after ∧
          (∀ y ∈ before, ¬ Unknown nonTerminals terminals y) ∧ Unknown nonTerminals terminals x) ∧
          .unknownSymbol r x = e) := by
  have hnone : ∀ r : Rule, (if r.head ∉ SortedSet.ofList nonTerminals then
      some (GrammarError.headNotNonTerminal r) else
      (r.body.find? fun x => x ∉ SortedSet.ofList nonTerminals ∧ x ∉ SortedSet.ofList terminals).map
        (.unknownSymbol r)) = none ↔ ¬ Misfit nonTerminals terminals r := fun r => by
    by_cases hhead : r.head ∈ nonTerminals
    · simp [Misfit, Unknown, hhead]
    · simp [Misfit, hhead]
  have horder : Rule.Precedes = (compare · · = .lt) :=
    funext₂ fun r s => propext Rule.compare_eq_lt_iff.symm
  rw [Components.ruleDefect?, listed, SortedSet.findSome?_ofList_eq_some_iff hnone, horder]
  refine exists_congr fun r => and_congr_right fun _ => ?_
  simp only [← find?_unknown_iff]
  by_cases hhead : r.head ∈ nonTerminals
  · simp [hhead]
  · simp [hhead]

theorem defect?_listed : (listed nonTerminals terminals rules start).defect? = some e ↔
    FirstDefect nonTerminals terminals rules start e := by
  simp only [Components.defect?, Option.orElse_eq_orElse, Option.orElse_eq_or,
    Option.or_eq_some_iff, startDefect?_listed, overlap?_listed, ruleDefect?_listed,
    Components.startDefect?_eq_none_iff, Components.overlap?_eq_none_iff]
  simp only [listed, SortedSet.mem_ofList]
  constructor
  · rintro (⟨hstart, rfl⟩ | ⟨hstart, ⟨common, hne, hcommon, hincreasing, rfl⟩ | ⟨hdisjoint, h⟩⟩)
    · exact .startNotNonTerminal hstart
    · exact .overlap hstart hne hcommon hincreasing
    · obtain ⟨r, hr, ⟨hhead, rfl⟩ | ⟨hhead, x, ⟨before, after, hbody, hbefore, hx⟩, rfl⟩⟩ := h
      · exact .headNotNonTerminal hstart hdisjoint hr hhead
      · exact .unknownSymbol hstart hdisjoint hr hhead hbody hbefore hx
  · intro h
    cases h with
    | startNotNonTerminal hstart => exact .inl ⟨hstart, rfl⟩
    | overlap hstart hne hcommon hincreasing =>
      exact .inr ⟨hstart, .inl ⟨_, hne, hcommon, hincreasing, rfl⟩⟩
    | headNotNonTerminal hstart hdisjoint hr hhead =>
      exact .inr ⟨hstart, .inr ⟨hdisjoint, _, hr, .inl ⟨hhead, rfl⟩⟩⟩
    | unknownSymbol hstart hdisjoint hr hhead hbody hbefore hx =>
      exact .inr ⟨hstart, .inr ⟨hdisjoint, _, hr,
        .inr ⟨hhead, _, ⟨_, _, hbody, hbefore, hx⟩, rfl⟩⟩⟩

theorem validate_eq_error_iff {c : Components} : validate c = .error e ↔ c.defect? = some e := by
  unfold validate
  split
  · next e' he => simp [he]
  · next he => simp [he]

/-- Listed components make a grammar with exactly what is listed if they fit, and otherwise the
first defect is reported, whatever the order of the lists and however often they repeat
themselves. -/
theorem ofLists_outcome (nonTerminals terminals : List Symbol) (rules : List Rule)
    (start : Symbol) :
    (∀ nonTerminals' terminals' rules', (∀ x, x ∈ nonTerminals' ↔ x ∈ nonTerminals) →
      (∀ x, x ∈ terminals' ↔ x ∈ terminals) → (∀ r, r ∈ rules' ↔ r ∈ rules) →
      ofLists nonTerminals' terminals' rules' start = ofLists nonTerminals terminals rules start) ∧
    ((∃ g, ofLists nonTerminals terminals rules start = .ok g) ↔
      Fits nonTerminals terminals rules start) ∧
    (∀ g, ofLists nonTerminals terminals rules start = .ok g →
      HasListed nonTerminals terminals rules start g) ∧
    ∀ e, ofLists nonTerminals terminals rules start = .error e ↔
      FirstDefect nonTerminals terminals rules start e := by
  refine ⟨fun nonTerminals' terminals' rules' hnonTerminals hterminals hrules => ?_,
    ⟨fun ⟨g, hg⟩ => ?_, fun hfits => ?_⟩, fun g => hasListed_of_ofLists, fun e => ?_⟩
  · rw [ofLists, ofLists, SortedSet.ofList_eq_iff.mpr hnonTerminals,
      SortedSet.ofList_eq_iff.mpr hterminals, SortedSet.ofList_eq_iff.mpr hrules]
  · have hlisted : g.toComponents = listed nonTerminals terminals rules start :=
      toComponents_of_validate hg
    exact valid_listed_iff.mp (hlisted ▸ g.valid)
  · exact ⟨_, validate_eq_ok (valid_listed_iff.mpr hfits)⟩
  · exact validate_eq_error_iff.trans defect?_listed

end Grammar
end FormalLanguage
