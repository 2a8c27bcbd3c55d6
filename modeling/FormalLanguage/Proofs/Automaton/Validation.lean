import FormalLanguage.Proofs.Automaton.Determinization

/-! What makes an automaton of listed components.

Components are handed in as lists, and only the sets of what is listed count. They
make an automaton exactly if they fit (`Fits`). Otherwise there is one defect that
is reported (`FirstDefect`): the rules are looked at in a fixed order, and of the
offenders against the first broken one the least is named, so that no order of the
lists shows. Components that are collected from transitions can only lack a final
state, and have no state and no symbol that any fitting components could do without
(`ofLists_exact`). -/
namespace FormalLanguage.Automaton

section Listed
variable (alphabet : List Symbol) (states finals : List State) (start : State)
  (transitions : List Transition)

/-! ### Listed components -/

/-- What makes listed components those of an automaton. -/
structure Fits : Prop where
  start_mem : start ∈ states
  finals_mem : ∀ q ∈ finals, q ∈ states
  finals_ne_nil : finals ≠ []
  ends_mem : ∀ t ∈ transitions, t.source ∈ states ∧ t.target ∈ states
  symbol_mem : ∀ t ∈ transitions, t.symbol ∈ alphabet

/-- The automaton has what is listed and nothing else. -/
structure HasListed (a : Automaton) : Prop where
  alphabet_iff : ∀ x, x ∈ a.alphabet ↔ x ∈ alphabet
  states_iff : ∀ q, q ∈ a.states ↔ q ∈ states
  finals_iff : ∀ q, q ∈ a.finals ↔ q ∈ finals
  start_eq : a.start = start
  transitions_iff : ∀ t, t ∈ a.transitions ↔ t ∈ transitions

/-- One of the ends is not among the states. -/
def Loose (t : Transition) : Prop := t.source ∉ states ∨ t.target ∉ states

/-- The defect that is reported of listed components that do not fit. The final states are looked
at when the start state is a state, their number when they all are states, the ends of the
transitions after that, and their symbols last. -/
inductive FirstDefect : AutomatonError → Prop where
  | unknownStart (hstart : start ∉ states) : FirstDefect (.unknownStart start)
  | unknownFinal {q : State} (hstart : start ∈ states)
      (hq : Least (compare · · = .lt) (· ∉ states) finals q) : FirstDefect (.unknownFinal q)
  | noFinals (hstart : start ∈ states) (hfinals : finals = []) : FirstDefect .noFinals
  | unknownSource {t : Transition} (hstart : start ∈ states) (hfinals : ∀ q ∈ finals, q ∈ states)
      (hne : finals ≠ []) (ht : Least (compare · · = .lt) (Loose states) transitions t)
      (hsource : t.source ∉ states) : FirstDefect (.unknownSource t)
  | unknownTarget {t : Transition} (hstart : start ∈ states) (hfinals : ∀ q ∈ finals, q ∈ states)
      (hne : finals ≠ []) (ht : Least (compare · · = .lt) (Loose states) transitions t)
      (hsource : t.source ∈ states) : FirstDefect (.unknownTarget t)
  | undeclaredSymbol {t : Transition} (hstart : start ∈ states)
      (hfinals : ∀ q ∈ finals, q ∈ states) (hne : finals ≠ [])
      (hends : ∀ t ∈ transitions, t.source ∈ states ∧ t.target ∈ states)
      (ht : Least (compare · · = .lt) (·.symbol ∉ alphabet) transitions t) :
      FirstDefect (.undeclaredSymbol t)

def listed : Components :=
  ⟨.ofList alphabet, .ofList states, .ofList finals, start, .ofList transitions⟩

end Listed

variable {alphabet : List Symbol} {states finals : List State} {start : State}
  {transitions : List Transition} {a : Automaton} {e : AutomatonError}

theorem valid_listed_iff : (listed alphabet states finals start transitions).Valid ↔
    Fits alphabet states finals start transitions := by
  constructor
  · rintro ⟨hstart, hfinals, ⟨q, hq⟩, hsources, htargets, hsymbols⟩
    simp only [listed, SortedSet.mem_ofList] at *
    exact ⟨hstart, hfinals, List.ne_nil_of_mem hq, fun t ht => ⟨hsources t ht, htargets t ht⟩,
      hsymbols⟩
  · rintro ⟨hstart, hfinals, hne, hends, hsymbols⟩
    obtain ⟨q, hq⟩ := List.exists_mem_of_ne_nil finals hne
    refine ⟨?_, ?_, ⟨q, ?_⟩, ?_, ?_, ?_⟩ <;> simp only [listed, SortedSet.mem_ofList]
    · exact hstart
    · exact hfinals
    · exact hq
    · exact fun t ht => (hends t ht).1
    · exact fun t ht => (hends t ht).2
    · exact hsymbols

theorem hasListed_of_ofLists (h : ofLists alphabet states finals start transitions = .ok a) :
    HasListed alphabet states finals start transitions a := by
  have ha : a.toComponents = listed alphabet states finals start transitions :=
    toComponents_of_validate h
  constructor <;> simp [ha, listed]

/-! ### The defect that is reported -/

theorem startDefect?_listed :
    (listed alphabet states finals start transitions).startDefect? = some e ↔
      start ∉ states ∧ .unknownStart start = e := by
  simp [Components.startDefect?, listed]

theorem unknownFinal?_listed :
    (listed alphabet states finals start transitions).unknownFinal? = some e ↔
      ∃ q, Least (compare · · = .lt) (· ∉ states) finals q ∧ .unknownFinal q = e := by
  simp [Components.unknownFinal?, listed, SortedSet.find?_ofList_eq_some_iff]

theorem missingFinals?_listed :
    (listed alphabet states finals start transitions).missingFinals? = some e ↔
      finals = [] ∧ .noFinals = e := by
  simp [Components.missingFinals?, listed, SortedSet.isEmpty_iff, List.eq_nil_iff_forall_not_mem]

theorem endpointDefect?_listed :
    (listed alphabet states finals start transitions).endpointDefect? = some e ↔
      ∃ t, Least (compare · · = .lt) (Loose states) transitions t ∧
        (t.source ∉ states ∧ .unknownSource t = e ∨ t.source ∈ states ∧ .unknownTarget t = e) := by
  have hnone : ∀ t : Transition, (if t.source ∉ SortedSet.ofList states then
      some (AutomatonError.unknownSource t) else if t.target ∉ SortedSet.ofList states then
      some (AutomatonError.unknownTarget t) else none) = none ↔ ¬ Loose states t := fun t => by
    by_cases hsource : t.source ∈ states <;> simp [Loose, hsource]
  rw [Components.endpointDefect?, listed, SortedSet.findSome?_ofList_eq_some_iff hnone]
  refine exists_congr fun t => and_congr_right fun ht => ?_
  by_cases hsource : t.source ∈ states
  · have htarget : t.target ∉ states := ht.holds.resolve_left (not_not.mpr hsource)
    simp [hsource, htarget]
  · simp [hsource]

theorem undeclaredSymbol?_listed :
    (listed alphabet states finals start transitions).undeclaredSymbol? = some e ↔ ∃ t,
      Least (compare · · = .lt) (·.symbol ∉ alphabet) transitions t ∧ .undeclaredSymbol t = e := by
  simp [Components.undeclaredSymbol?, listed, SortedSet.find?_ofList_eq_some_iff]

theorem defect?_listed : (listed alphabet states finals start transitions).defect? = some e ↔
    FirstDefect alphabet states finals start transitions e := by
  have hsome : (∃ q, q ∈ finals) ↔ finals ≠ [] :=
    ⟨fun ⟨_, hq⟩ => List.ne_nil_of_mem hq, List.exists_mem_of_ne_nil finals⟩
  simp only [Components.defect?, Option.orElse_eq_orElse, Option.orElse_eq_or,
    Option.or_eq_some_iff, startDefect?_listed, unknownFinal?_listed, missingFinals?_listed,
    endpointDefect?_listed, undeclaredSymbol?_listed, Components.startDefect?_eq_none_iff,
    Components.unknownFinal?_eq_none_iff, Components.missingFinals?_eq_none_iff,
    Components.endpointDefect?_eq_none_iff]
  simp only [listed, SortedSet.mem_ofList, hsome]
  constructor
  · rintro (⟨hstart, rfl⟩ | ⟨hstart, ⟨q, hq, rfl⟩ | ⟨hfinals, ⟨hnone, rfl⟩ | ⟨hne, h⟩⟩⟩)
    · exact .unknownStart hstart
    · exact .unknownFinal hstart hq
    · exact .noFinals hstart hnone
    · rcases h with ⟨t, ht, ⟨hsource, rfl⟩ | ⟨hsource, rfl⟩⟩ | ⟨hends, t, ht, rfl⟩
      · exact .unknownSource hstart hfinals hne ht hsource
      · exact .unknownTarget hstart hfinals hne ht hsource
      · exact .undeclaredSymbol hstart hfinals hne hends ht
  · intro h
    cases h with
    | unknownStart hstart => exact .inl ⟨hstart, rfl⟩
    | unknownFinal hstart hq => exact .inr ⟨hstart, .inl ⟨_, hq, rfl⟩⟩
    | noFinals hstart hnone => exact .inr ⟨hstart, .inr ⟨by simp [hnone], .inl ⟨hnone, rfl⟩⟩⟩
    | unknownSource hstart hfinals hne ht hsource =>
      exact .inr ⟨hstart, .inr ⟨hfinals, .inr ⟨hne, .inl ⟨_, ht, .inl ⟨hsource, rfl⟩⟩⟩⟩⟩
    | unknownTarget hstart hfinals hne ht hsource =>
      exact .inr ⟨hstart, .inr ⟨hfinals, .inr ⟨hne, .inl ⟨_, ht, .inr ⟨hsource, rfl⟩⟩⟩⟩⟩
    | undeclaredSymbol hstart hfinals hne hends ht =>
      exact .inr ⟨hstart, .inr ⟨hfinals, .inr ⟨hne, .inr ⟨hends, _, ht, rfl⟩⟩⟩⟩

theorem validate_eq_error_iff {c : Components} : validate c = .error e ↔ c.defect? = some e := by
  unfold validate
  split
  · next e' he => simp [he]
  · next he => simp [he]

/-! ### Components that are collected from transitions -/

theorem ofTransitions_eq_error_iff :
    ofTransitions start transitions finals = .error e ↔ finals = [] ∧ e = .noFinals := by
  by_cases hfinals : finals = []
  · subst hfinals
    simp [ofTransitions_nil, eq_comm]
  · obtain ⟨a, ha⟩ := exists_ofTransitions hfinals start transitions
    simp [ha, hfinals]

/-- No alphabet and no states fit without what is collected, and any with it do. -/
theorem fits_iff_of_ofTransitions (h : ofTransitions start transitions finals = .ok a)
    (alphabet : List Symbol) (states : List State) :
    Fits alphabet states finals start transitions ↔
      (∀ x ∈ a.alphabet, x ∈ alphabet) ∧ ∀ q ∈ a.states, q ∈ states := by
  have ha : a.toComponents = mentioned start transitions finals := toComponents_of_validate h
  have hsymbols : ∀ x, x ∈ a.alphabet ↔ ∃ t ∈ transitions, t.symbol = x := by simp [ha, mentioned]
  have hstates : ∀ q, q ∈ a.states ↔ q = start ∨ q ∈ finals ∨ (∃ t ∈ transitions, t.source = q) ∨
      ∃ t ∈ transitions, t.target = q := by
    rw [ha]
    exact mem_states_mentioned start transitions finals
  constructor
  · rintro ⟨hstart, hfinals, _, hends, hsymbol⟩
    refine ⟨fun x hx => ?_, fun q hq => ?_⟩
    · obtain ⟨t, ht, rfl⟩ := (hsymbols x).mp hx
      exact hsymbol t ht
    · rcases (hstates q).mp hq with rfl | hq | ⟨t, ht, rfl⟩ | ⟨t, ht, rfl⟩
      · exact hstart
      · exact hfinals q hq
      · exact (hends t ht).1
      · exact (hends t ht).2
  · rintro ⟨halphabet, hsub⟩
    refine ⟨?_, fun q hq => ?_, fun hnil => ?_, fun t ht => ⟨?_, ?_⟩, fun t ht => ?_⟩
    · exact hsub start ((hstates start).mpr (.inl rfl))
    · exact hsub q ((hstates q).mpr (.inr (.inl hq)))
    · rw [ofTransitions_eq_error_iff.mpr ⟨hnil, rfl⟩] at h
      cases h
    · exact hsub _ ((hstates _).mpr (.inr (.inr (.inl ⟨t, ht, rfl⟩))))
    · exact hsub _ ((hstates _).mpr (.inr (.inr (.inr ⟨t, ht, rfl⟩))))
    · exact halphabet _ ((hsymbols _).mpr ⟨t, ht, rfl⟩)

/-- Listed components make an automaton with exactly what is listed if they fit, and otherwise the
first defect is reported, whatever the order of the lists and however often they repeat themselves.
Components that are collected from transitions fit as soon as there is a final state, and with the
fewest symbols and states that do. -/
theorem ofLists_exact (alphabet : List Symbol) (states finals : List State) (start : State)
    (transitions : List Transition) :
    (∀ alphabet' states' finals' transitions', (∀ x, x ∈ alphabet' ↔ x ∈ alphabet) →
      (∀ q, q ∈ states' ↔ q ∈ states) → (∀ q, q ∈ finals' ↔ q ∈ finals) →
      (∀ t, t ∈ transitions' ↔ t ∈ transitions) →
      ofLists alphabet' states' finals' start transitions' =
        ofLists alphabet states finals start transitions) ∧
    ((∃ a, ofLists alphabet states finals start transitions = .ok a) ↔
      Fits alphabet states finals start transitions) ∧
    (∀ a, ofLists alphabet states finals start transitions = .ok a →
      HasListed alphabet states finals start transitions a) ∧
    (∀ e, ofLists alphabet states finals start transitions = .error e ↔
      FirstDefect alphabet states finals start transitions e) ∧
    (∀ e, ofTransitions start transitions finals = .error e ↔ finals = [] ∧ e = .noFinals) ∧
    ∀ a, ofTransitions start transitions finals = .ok a → a.start = start ∧
      (∀ q, q ∈ a.finals ↔ q ∈ finals) ∧ (∀ t, t ∈ a.transitions ↔ t ∈ transitions) ∧
      ∀ alphabet states, Fits alphabet states finals start transitions ↔
        (∀ x ∈ a.alphabet, x ∈ alphabet) ∧ ∀ q ∈ a.states, q ∈ states := by
  refine ⟨fun alphabet' states' finals' transitions' halphabet hstates hfinals hmoves => ?_,
    ⟨fun ⟨a, ha⟩ => ?_, fun hfits => ?_⟩, fun a => hasListed_of_ofLists, fun e => ?_,
    fun e => ofTransitions_eq_error_iff, fun a ha => ?_⟩
  · rw [ofLists, ofLists, SortedSet.ofList_eq_iff.mpr halphabet,
      SortedSet.ofList_eq_iff.mpr hstates, SortedSet.ofList_eq_iff.mpr hfinals,
      SortedSet.ofList_eq_iff.mpr hmoves]
  · have hlisted : a.toComponents = listed alphabet states finals start transitions :=
      toComponents_of_validate ha
    exact valid_listed_iff.mp (hlisted ▸ a.valid)
  · exact ⟨_, validate_eq_ok (valid_listed_iff.mpr hfits)⟩
  · exact validate_eq_error_iff.trans defect?_listed
  · have hlisted := hasListed_of_ofLists ha
    exact ⟨hlisted.start_eq, hlisted.finals_iff, hlisted.transitions_iff,
      fits_iff_of_ofTransitions ha⟩

end FormalLanguage.Automaton
