import FormalLanguage.Grammar.Reduction
import FormalLanguage.Proofs.Grammar.Analysis

/-! What reducing a grammar leaves.

`ProductiveForm` and `ReachableForm` say which symbols and rules the two passes
keep. What they keep is a grammar again and generates the same words, since a
derivation of a word stays within productive symbols, and a derivation from the
start symbol within reachable ones (`productiveForm_keeps_language`). The second
pass leaves every non-terminal productive, because it keeps all rules of those that
it keeps, so after both passes every non-terminal takes part in the derivation of a
word, and reducing again changes nothing (`reducedForm_useful`). -/
namespace FormalLanguage.Grammar

variable {g h : Grammar} {x : Symbol} {w : Word}

theorem mem_nonTerminals_or_terminals {r : Rule} (hr : r ∈ g.rules) :
    ∀ y ∈ r.head :: r.body, y ∈ g.nonTerminals ∨ y ∈ g.terminals := by
  intro y hy
  rcases List.mem_cons.mp hy with rfl | hy
  · exact .inl (g.valid.head_mem r hr)
  · exact g.valid.body_mem r hr y hy

theorem productive_of_mem_terminals (hx : x ∈ g.terminals) : g.Productive x :=
  derivesOver_of_mem hx

theorem productive_start_iff : g.Productive g.start ↔ ∃ w, g.Generates w := Iff.rfl

/-! ### Without the symbols that derive no word -/

/-- `h` is what is left of `g` without the non-terminals that derive no word. -/
structure ProductiveForm (g h : Grammar) : Prop where
  start_eq : h.start = g.start
  terminals_eq : h.terminals = g.terminals
  mem_nonTerminals : ∀ {x}, x ∈ h.nonTerminals ↔ x ∈ g.nonTerminals ∧ g.Productive x
  mem_rules : ∀ {r}, r ∈ h.rules ↔ r ∈ g.rules ∧ ∀ y ∈ r.head :: r.body, g.Productive y

theorem productiveForm_eq_error (hstart : ¬ g.Productive g.start) :
    g.productiveForm = .error .emptyLanguage := by
  rw [← mem_productive] at hstart
  simp [productiveForm, hstart]

theorem exists_productiveForm (hstart : g.Productive g.start) :
    ∃ h, g.productiveForm = .ok h ∧ ProductiveForm g h := by
  have hmem : g.start ∈ g.productive := mem_productive.mpr hstart
  rw [productiveForm, if_neg (not_not_intro hmem), validate_eq_ok]
  · refine ⟨_, rfl, rfl, rfl, ?_, ?_⟩
    · simp [mem_productive]
    · simp [mem_productive]
  · refine ⟨?_, fun y hy hnot => ?_, fun r hr => ?_, fun r hr y hy => ?_⟩
    · simpa using ⟨g.valid.start_mem, hmem⟩
    · exact g.valid.disjoint y hy (SortedSet.mem_filter.mp hnot).1
    · obtain ⟨hr, hkept⟩ := SortedSet.mem_filter.mp hr
      simp only [decide_eq_true_eq] at hkept
      simpa using ⟨g.valid.head_mem r hr, hkept.1⟩
    · obtain ⟨hr, hkept⟩ := SortedSet.mem_filter.mp hr
      simp only [decide_eq_true_eq] at hkept
      refine (g.valid.body_mem r hr y hy).imp_left fun hy' => ?_
      simpa using ⟨hy', hkept.2 y hy⟩

namespace ProductiveForm

/-- Every derivation of a word is kept. -/
theorem derives (hform : ProductiveForm g h) {s : List Symbol} (hs : g.Derives s w)
    (hw : ∀ y ∈ w, y ∈ g.terminals) : h.Derives s w := by
  refine (closedBackward_derivingOnly g g.terminals).derives (fun r hr hhead hbody => ?_) hs
    fun y hy => subset_derivingOnly (hw y hy)
  refine hform.mem_rules.mpr ⟨hr, fun y hy => ?_⟩
  rcases List.mem_cons.mp hy with rfl | hy
  · exact mem_productive.mp hhead
  · exact mem_productive.mp (hbody y hy)

theorem derives_iff (hform : ProductiveForm g h) {s : List Symbol}
    (hw : ∀ y ∈ w, y ∈ g.terminals) : h.Derives s w ↔ g.Derives s w :=
  ⟨.mono fun _ hr => (hform.mem_rules.mp hr).1, fun hs => hform.derives hs hw⟩

theorem generates_iff (hform : ProductiveForm g h) : h.Generates w ↔ g.Generates w := by
  rw [Generates, Generates, hform.start_eq, hform.terminals_eq]
  exact and_congr_left fun hw => hform.derives_iff hw

theorem productive_iff (hform : ProductiveForm g h) : h.Productive x ↔ g.Productive x := by
  rw [Productive, Productive, hform.terminals_eq]
  exact exists_congr fun w => and_congr_left fun hw => hform.derives_iff hw

theorem productive (hform : ProductiveForm g h) (hx : x ∈ h.nonTerminals) : h.Productive x :=
  hform.productive_iff.mpr (hform.mem_nonTerminals.mp hx).2

end ProductiveForm

/-- The productive form fails exactly for grammars that generate no word, and else generates the
same words with the non-terminals that derive a word and the rules between these. -/
theorem productiveForm_keeps_language (g : Grammar) :
    (g.productiveForm = .error .emptyLanguage ↔ ∀ w, ¬ g.Generates w) ∧
      (g.productiveForm = .error .emptyLanguage ∨ ∃ h, g.productiveForm = .ok h ∧
        (∀ w, h.Generates w ↔ g.Generates w) ∧ h.start = g.start ∧ h.terminals = g.terminals ∧
        (∀ x, x ∈ h.nonTerminals ↔ x ∈ g.nonTerminals ∧ g.Productive x) ∧
        (∀ x ∈ h.nonTerminals, h.Productive x) ∧
        ∀ r, r ∈ h.rules ↔ r ∈ g.rules ∧
          ∀ y ∈ r.head :: r.body, y ∈ g.terminals ∨ y ∈ g.nonTerminals ∧ g.Productive y) := by
  by_cases hstart : g.Productive g.start
  · obtain ⟨h, hok, hform⟩ := exists_productiveForm hstart
    refine ⟨?_, .inr ⟨h, hok, fun w => hform.generates_iff, hform.start_eq, hform.terminals_eq,
      fun x => hform.mem_nonTerminals, fun x => hform.productive, fun r => ?_⟩⟩
    · obtain ⟨w, hw⟩ := productive_start_iff.mp hstart
      rw [hok]
      exact ⟨nofun, fun hnone => absurd hw (hnone w)⟩
    · rw [hform.mem_rules]
      refine and_congr_right fun hr => forall₂_congr fun y hy => ?_
      refine ⟨fun hproductive => ?_, fun hkind => ?_⟩
      · exact (mem_nonTerminals_or_terminals hr y hy).symm.imp_right fun hy => ⟨hy, hproductive⟩
      · exact hkind.elim productive_of_mem_terminals And.right
  · have herror := productiveForm_eq_error hstart
    rw [productive_start_iff, not_exists] at hstart
    exact ⟨iff_of_true herror hstart, .inl herror⟩

/-! ### Without the symbols that the start symbol does not reach -/

/-- `h` is what is left of `g` without the non-terminals that do not occur in derivations. -/
structure ReachableForm (g h : Grammar) : Prop where
  start_eq : h.start = g.start
  terminals_eq : h.terminals = g.terminals
  mem_nonTerminals : ∀ {x}, x ∈ h.nonTerminals ↔ x ∈ g.nonTerminals ∧ g.Occurs x
  mem_rules : ∀ {r}, r ∈ h.rules ↔ r ∈ g.rules ∧ g.Occurs r.head

theorem exists_reachableForm (g : Grammar) : ∃ h, g.reachableForm = .ok h ∧ ReachableForm g h := by
  rw [reachableForm, validate_eq_ok]
  · refine ⟨_, rfl, rfl, rfl, ?_, ?_⟩
    · simp [mem_reachable]
    · simp [mem_reachable]
  · refine ⟨?_, fun y hy hnot => ?_, fun r hr => ?_, fun r hr y hy => ?_⟩
    · simpa using ⟨g.valid.start_mem, g.start_mem_reachable⟩
    · exact g.valid.disjoint y hy (SortedSet.mem_filter.mp hnot).1
    · obtain ⟨hr, hkept⟩ := SortedSet.mem_filter.mp hr
      exact SortedSet.mem_filter.mpr ⟨g.valid.head_mem r hr, hkept⟩
    · obtain ⟨hr, hkept⟩ := SortedSet.mem_filter.mp hr
      refine (g.valid.body_mem r hr y hy).imp_left fun hy' => SortedSet.mem_filter.mpr ⟨hy', ?_⟩
      exact decide_eq_true (g.closedForward_reachable r hr (of_decide_eq_true hkept) y hy)

namespace ReachableForm

/-- Derivations from symbols that occur are kept. -/
theorem derives (hform : ReachableForm g h) {s t : List Symbol} (hs : ∀ x ∈ s, g.Occurs x)
    (hst : g.Derives s t) : h.Derives s t :=
  g.closedForward_reachable.derives
    (fun _ hr hhead => hform.mem_rules.mpr ⟨hr, mem_reachable.mp hhead⟩) hst
    fun x hx => mem_reachable.mpr (hs x hx)

theorem derives_start_iff (hform : ReachableForm g h) {t : List Symbol} :
    h.Derives [g.start] t ↔ g.Derives [g.start] t := by
  refine ⟨.mono fun _ hr => (hform.mem_rules.mp hr).1, hform.derives fun x hx => ?_⟩
  rw [List.mem_singleton.mp hx]
  exact mem_reachable.mp g.start_mem_reachable

theorem generates_iff (hform : ReachableForm g h) : h.Generates w ↔ g.Generates w := by
  rw [Generates, Generates, hform.start_eq, hform.terminals_eq, hform.derives_start_iff]

theorem occurs_iff (hform : ReachableForm g h) : h.Occurs x ↔ g.Occurs x := by
  simp only [Occurs, hform.start_eq, hform.derives_start_iff]

theorem productive (hform : ReachableForm g h) (hx : g.Occurs x) (hproductive : g.Productive x) :
    h.Productive x := by
  obtain ⟨w, hw, hterminals⟩ := hproductive
  have hsingle : ∀ y ∈ [x], g.Occurs y := fun y hy => List.mem_singleton.mp hy ▸ hx
  rw [Productive, DerivesOver, hform.terminals_eq]
  exact ⟨w, hform.derives hsingle hw, hterminals⟩

end ReachableForm

/-! ### Reduced grammars -/

/-- Every non-terminal occurs in a derivation and derives a word. -/
structure Reduced (g : Grammar) : Prop where
  occurs : ∀ x ∈ g.nonTerminals, g.Occurs x
  productive : ∀ x ∈ g.nonTerminals, g.Productive x

theorem Reduced.productive_of_mem (hg : g.Reduced) (hx : x ∈ g.nonTerminals ∨ x ∈ g.terminals) :
    g.Productive x :=
  hx.elim (hg.productive x) productive_of_mem_terminals

/-- Neither pass finds anything to remove. -/
theorem Reduced.reducedForm_eq (hg : g.Reduced) : g.reducedForm = .ok g := by
  obtain ⟨p, hp, hproductive⟩ := exists_productiveForm (hg.productive _ g.valid.start_mem)
  obtain rfl : p = g := by
    refine ext_of_mem hproductive.start_eq hproductive.terminals_eq (fun x => ?_) fun r => ?_
    · rw [hproductive.mem_nonTerminals]
      exact and_iff_left_of_imp (hg.productive x)
    · rw [hproductive.mem_rules]
      exact and_iff_left_of_imp fun hr y hy =>
        hg.productive_of_mem (mem_nonTerminals_or_terminals hr y hy)
  obtain ⟨q, hq, hreachable⟩ := exists_reachableForm p
  obtain rfl : q = p := by
    refine ext_of_mem hreachable.start_eq hreachable.terminals_eq (fun x => ?_) fun r => ?_
    · rw [hreachable.mem_nonTerminals]
      exact and_iff_left_of_imp (hg.occurs x)
    · rw [hreachable.mem_rules]
      exact and_iff_left_of_imp fun hr => hg.occurs _ (p.valid.head_mem r hr)
  rw [reducedForm, hp]
  exact hq

/-- What is reachable in a productive form is productive there, so both passes leave a reduced
grammar. -/
theorem ReachableForm.reduced {p : Grammar} (hform : ReachableForm p h)
    (hp : ∀ x ∈ p.nonTerminals, p.Productive x) : h.Reduced := by
  refine ⟨fun x hx => ?_, fun x hx => ?_⟩
  · exact hform.occurs_iff.mpr (hform.mem_nonTerminals.mp hx).2
  · obtain ⟨hx, hoccurs⟩ := hform.mem_nonTerminals.mp hx
    exact hform.productive hoccurs (hp x hx)

theorem mem_of_occurs (hx : g.Occurs x) : x ∈ g.nonTerminals ∨ x ∈ g.terminals := by
  rw [occurs_iff_leadsTo] at hx
  cases hx with
  | refl => exact .inl g.valid.start_mem
  | tail _ hstep =>
    obtain ⟨r, hr, _, hbody⟩ := mem_produced.mp hstep
    exact g.valid.body_mem r hr x hbody

/-- In a reduced grammar every text that the start symbol derives goes on to a word. -/
theorem Reduced.exists_word (hg : g.Reduced) {t : List Symbol} (ht : g.Derives [g.start] t) :
    ∃ w, g.Derives t w ∧ ∀ y ∈ w, y ∈ g.terminals := by
  refine exists_derives_of_forall fun y hy => ?_
  obtain ⟨u, v, rfl⟩ := List.append_of_mem hy
  exact hg.productive_of_mem (mem_of_occurs ⟨u, v, ht⟩)

/-- The reduced form fails exactly for grammars that generate no word, and else generates the same
words, each non-terminal taking part in the derivation of one; reducing again changes nothing. -/
theorem reducedForm_useful (g : Grammar) :
    (g.reducedForm = .error .emptyLanguage ↔ ∀ w, ¬ g.Generates w) ∧
      (g.reducedForm = .error .emptyLanguage ∨ ∃ h, g.reducedForm = .ok h ∧
        (∀ w, h.Generates w ↔ g.Generates w) ∧ h.start = g.start ∧ h.terminals = g.terminals ∧
        (∀ x ∈ h.nonTerminals, ∃ u v w, h.Derives [h.start] (u ++ x :: v) ∧
          h.Derives (u ++ x :: v) w ∧ ∀ y ∈ w, y ∈ h.terminals) ∧
        h.reducedForm = .ok h) := by
  by_cases hstart : g.Productive g.start
  · obtain ⟨p, hp, hproductive⟩ := exists_productiveForm hstart
    obtain ⟨h, hh, hreachable⟩ := exists_reachableForm p
    have hok : g.reducedForm = .ok h := by
      rw [reducedForm, hp]
      exact hh
    have hreduced : h.Reduced := hreachable.reduced fun x => hproductive.productive
    refine ⟨?_, .inr ⟨h, hok, fun w => ?_, ?_, ?_, fun x hx => ?_, hreduced.reducedForm_eq⟩⟩
    · obtain ⟨w, hw⟩ := productive_start_iff.mp hstart
      rw [hok]
      exact ⟨nofun, fun hnone => absurd hw (hnone w)⟩
    · rw [hreachable.generates_iff, hproductive.generates_iff]
    · rw [hreachable.start_eq, hproductive.start_eq]
    · rw [hreachable.terminals_eq, hproductive.terminals_eq]
    · obtain ⟨u, v, hderives⟩ := hreduced.occurs x hx
      obtain ⟨w, hw, hterminals⟩ := hreduced.exists_word hderives
      exact ⟨u, v, w, hderives, hw, hterminals⟩
  · have herror : g.reducedForm = .error .emptyLanguage := by
      rw [reducedForm, productiveForm_eq_error hstart]
      rfl
    rw [productive_start_iff, not_exists] at hstart
    exact ⟨iff_of_true herror hstart, .inl herror⟩

end FormalLanguage.Grammar
