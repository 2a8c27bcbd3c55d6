import FormalLanguage.Proofs.Grammar.Analysis

/-! Derivations that take a step.

From a single symbol the first step puts the body of one of its rules in its place, so
what a symbol properly derives is what the bodies of its rules derive
(`derivesProperly_iff`). Two analyses ask for no more than that. A nullable symbol is
not empty itself and has to take a step to become so, and only non-terminals can take
one (`saturation_exact`). A recursive symbol is led back to itself through one body or
more, and whatever is on the way has a rule, so that a search through non-terminals
misses none of it (`isRecursive_exact`). -/
namespace FormalLanguage.Grammar

variable {g : Grammar} {s t : List Symbol} {x y z : Symbol}

/-! ### First steps -/

theorem Produces.exists_rule (h : g.Produces s t) : ∃ before r after, r ∈ g.rules ∧
    s = before ++ r.head :: after ∧ t = before ++ r.body ++ after := by
  cases h with
  | @rule before after r hr => exact ⟨before, r, after, hr, rfl, rfl⟩

theorem produces_singleton_iff : g.Produces [x] t ↔ ∃ r ∈ g.rules, r.head = x ∧ r.body = t := by
  constructor
  · intro h
    obtain ⟨before, r, after, hr, hx, rfl⟩ := h.exists_rule
    obtain ⟨rfl, hx⟩ | ⟨_, hx⟩ := List.singleton_eq_append_iff.mp hx
    · obtain ⟨rfl, rfl⟩ := List.cons.inj hx
      exact ⟨r, hr, rfl, by simp⟩
    · exact absurd hx (List.cons_ne_nil _ _)
  · rintro ⟨r, hr, rfl, rfl⟩
    exact .of_rule hr

/-- What a symbol properly derives, the body of one of its rules derives. -/
theorem derivesProperly_iff :
    g.DerivesProperly [x] t ↔ ∃ r ∈ g.rules, r.head = x ∧ g.Derives r.body t := by
  constructor
  · rintro ⟨s, hstep, hrest⟩
    obtain ⟨r, hr, hhead, rfl⟩ := produces_singleton_iff.mp hstep
    exact ⟨r, hr, hhead, hrest⟩
  · rintro ⟨r, hr, rfl, hrest⟩
    exact ⟨r.body, .of_rule hr, hrest⟩

theorem DerivesProperly.mem_nonTerminals (h : g.DerivesProperly [x] t) : x ∈ g.nonTerminals := by
  obtain ⟨r, hr, rfl, _⟩ := derivesProperly_iff.mp h
  exact g.valid.head_mem r hr

/-- A derivation goes nowhere, or takes a step. -/
theorem Derives.eq_or_properly (h : g.Derives s t) : s = t ∨ g.DerivesProperly s t := by
  cases h with
  | refl => exact .inl rfl
  | head hstep hrest => exact .inr ⟨_, hstep, hrest⟩

theorem DerivesProperly.derives (h : g.DerivesProperly s t) : g.Derives s t := by
  obtain ⟨_, hstep, hrest⟩ := h
  exact .head hstep hrest

/-! ### Derivations of words -/

theorem derivesOver_empty_iff : g.DerivesOver ∅ x ↔ g.DerivesProperly [x] [] := by
  constructor
  · rintro ⟨w, hw, hknown⟩
    obtain rfl : w = [] := List.eq_nil_iff_forall_not_mem.mpr fun y hy =>
      SortedSet.not_mem_empty y (hknown y hy)
    exact hw.eq_or_properly.resolve_left (List.cons_ne_nil x [])
  · intro h
    exact ⟨[], h.derives, nofun⟩

theorem Productive.mem_symbols (h : g.Productive x) : x ∈ g.nonTerminals ∨ x ∈ g.terminals := by
  obtain ⟨w, hw, hterminals⟩ := h
  obtain rfl | hproper := hw.eq_or_properly
  · exact .inr (hterminals x (List.mem_singleton.mpr rfl))
  · exact .inl hproper.mem_nonTerminals

/-- Saturating finds exactly the non-terminals that derive the empty word by one step or more, and
exactly the symbols of the grammar that derive a word of terminals. -/
theorem saturation_exact (g : Grammar) :
    (∀ x, x ∈ g.nullable ↔ x ∈ g.nonTerminals ∧ g.DerivesProperly [x] []) ∧
      ∀ x, x ∈ g.productive ↔ (x ∈ g.nonTerminals ∨ x ∈ g.terminals) ∧
        ∃ w, g.Derives [x] w ∧ ∀ y ∈ w, y ∈ g.terminals := by
  constructor
  · intro x
    rw [nullable, mem_derivingOnly, derivesOver_empty_iff]
    exact (and_iff_right_of_imp DerivesProperly.mem_nonTerminals).symm
  · intro x
    rw [mem_productive]
    exact (and_iff_right_of_imp Productive.mem_symbols).symm

/-! ### Derivations that come back -/

/-- One symbol leads to another through one body or more. -/
def LeadsProperlyTo (g : Grammar) : Symbol → Symbol → Prop :=
  Relation.TransGen fun x y => y ∈ g.produced x

theorem leadsProperlyTo_iff :
    g.LeadsProperlyTo x y ↔ ∃ u v, g.DerivesProperly [x] (u ++ y :: v) := by
  rw [LeadsProperlyTo, Relation.TransGen.head'_iff]
  constructor
  · rintro ⟨z, hz, hzy⟩
    obtain ⟨r, hr, rfl, hbody⟩ := mem_produced.mp hz
    obtain ⟨before, after, hbody⟩ := List.append_of_mem hbody
    obtain ⟨u, v, hderives⟩ := LeadsTo.exists_derives hzy
    refine ⟨before ++ u, v ++ after, derivesProperly_iff.mpr ⟨r, hr, rfl, ?_⟩⟩
    have hinside := (hderives.append_left before).append_right after
    rw [hbody]
    simpa using hinside
  · rintro ⟨u, v, h⟩
    obtain ⟨r, hr, rfl, hrest⟩ := derivesProperly_iff.mp h
    obtain ⟨z, hz, hzy⟩ := hrest.exists_leadsTo (y := y) (by simp)
    exact ⟨z, mem_produced.mpr ⟨r, hr, rfl, hz⟩, hzy⟩

theorem mem_nonTerminals_of_produced (h : y ∈ g.produced x) : x ∈ g.nonTerminals := by
  obtain ⟨r, hr, rfl, _⟩ := mem_produced.mp h
  exact g.valid.head_mem r hr

theorem mem_descendants : y ∈ g.descendants x ↔
    Relation.ReflTransGen (fun x y => y ∈ g.produced x ∧ y ∈ g.nonTerminals) x y := by
  have hnext : ∀ {x y}, y ∈ (g.produced x).filter g.isNonTerminal ↔
      y ∈ g.produced x ∧ y ∈ g.nonTerminals := by simp [isNonTerminal]
  have hspace : ∀ x, ∀ y ∈ (g.produced x).filter g.isNonTerminal, y ∈ g.nonTerminals.toList :=
    fun x y hy => (hnext.mp hy).2
  rw [descendants, Exploration.mem_closure hspace (Nat.le_refl g.nonTerminals.size)]
  simp [hnext]

/-- The search passes through non-terminals only, but so does every way to one of them, since
whatever it passes through has a rule. -/
theorem mem_descendants_of_leadsTo (h : g.LeadsTo x y) (hy : y ∈ g.nonTerminals) :
    y ∈ g.descendants x := by
  rw [mem_descendants]
  induction h with
  | refl => exact .refl
  | tail _ hstep ih => exact (ih (mem_nonTerminals_of_produced hstep)).tail ⟨hstep, hy⟩

theorem leadsTo_of_mem_descendants (h : y ∈ g.descendants x) : g.LeadsTo x y := by
  rw [mem_descendants] at h
  induction h with
  | refl => exact .refl
  | tail _ hstep ih => exact ih.tail hstep.1

/-- A symbol is found to be recursive exactly if it is a non-terminal that derives, by one step or
more, a text in which it occurs. -/
theorem isRecursive_exact (g : Grammar) (x : Symbol) : g.isRecursive x = true ↔
    x ∈ g.nonTerminals ∧ ∃ u v, g.DerivesProperly [x] (u ++ x :: v) := by
  rw [← leadsProperlyTo_iff, LeadsProperlyTo, Relation.TransGen.tail'_iff]
  simp only [isRecursive, isNonTerminal, Bool.and_eq_true, decide_eq_true_eq, List.any_eq_true]
  refine and_congr_right fun _ => exists_congr fun y => and_congr_left fun hstep => ?_
  exact ⟨leadsTo_of_mem_descendants,
    fun h => mem_descendants_of_leadsTo h (mem_nonTerminals_of_produced hstep)⟩

end FormalLanguage.Grammar
