import FormalLanguage.Grammar.Analysis
import FormalLanguage.Grammar.Derivation
import FormalLanguage.Proofs.Exploration
import FormalLanguage.Proofs.SortedSet

/-! What the computed sets of symbols stand for.

Saturating finds the symbols from which words over known symbols are derived
(`mem_derivingOnly`), and exploring finds the symbols that occur in what the start
symbol derives (`mem_reachable`). Both come down to sets that rules do not lead out
of: backwards, from bodies to heads, and forwards, from heads to bodies. A
derivation that begins or ends in such a set can be replayed with the rules of that
set alone. -/
namespace FormalLanguage.Grammar
open Exploration

variable {g h : Grammar} {known : SymbolSet} {s t : List Symbol} {x y : Symbol}

/-! ### Words over known symbols -/

/-- Some word over `known` is derived from `x`. -/
def DerivesOver (g : Grammar) (known : SymbolSet) (x : Symbol) : Prop :=
  ∃ w, g.Derives [x] w ∧ ∀ y ∈ w, y ∈ known

/-- Some word of terminals is derived from `x`. -/
def Productive (g : Grammar) (x : Symbol) : Prop := g.DerivesOver g.terminals x

theorem derivesOver_of_mem (hx : x ∈ known) : g.DerivesOver known x :=
  ⟨[x], .refl [x], fun _ hy => List.mem_singleton.mp hy ▸ hx⟩

/-- What the symbols of a text derive, the text derives side by side. -/
theorem exists_derives_of_forall (hs : ∀ x ∈ s, g.DerivesOver known x) :
    ∃ w, g.Derives s w ∧ ∀ y ∈ w, y ∈ known := by
  induction s with
  | nil => exact ⟨[], .refl [], nofun⟩
  | cons x s ih =>
    obtain ⟨v, hv, hknown⟩ := hs x (List.mem_cons_self ..)
    obtain ⟨w, hw, hknown'⟩ := ih fun y hy => hs y (List.mem_cons_of_mem _ hy)
    refine ⟨v ++ w, hv.append hw, fun y hy => ?_⟩
    rcases List.mem_append.mp hy with hy | hy
    · exact hknown y hy
    · exact hknown' y hy

theorem Produces.of_rule {r : Rule} (hr : r ∈ g.rules) : g.Produces [r.head] r.body := by
  simpa using Produces.rule [] [] hr

theorem derivesOver_head {r : Rule} (hr : r ∈ g.rules)
    (hbody : ∀ y ∈ r.body, g.DerivesOver known y) : g.DerivesOver known r.head := by
  obtain ⟨w, hw, hknown⟩ := exists_derives_of_forall hbody
  exact ⟨w, .head (.of_rule hr) hw, hknown⟩

/-! ### Sets that rules do not lead out of -/

/-- No rule leads from symbols of the set back to a head outside of it. -/
def ClosedBackward (g : Grammar) (known : SymbolSet) : Prop :=
  ∀ r ∈ g.rules, (∀ y ∈ r.body, y ∈ known) → r.head ∈ known

/-- No rule leads from a head in the set to a symbol outside of it. -/
def ClosedForward (g : Grammar) (known : SymbolSet) : Prop :=
  ∀ r ∈ g.rules, r.head ∈ known → ∀ y ∈ r.body, y ∈ known

theorem ClosedBackward.mem_of_derives (hknown : g.ClosedBackward known) (hst : g.Derives s t)
    (ht : ∀ y ∈ t, y ∈ known) : ∀ x ∈ s, x ∈ known := by
  induction hst with
  | refl => exact ht
  | head hstep _ ih =>
    have hmid := ih ht
    cases hstep with
    | @rule before after r hr =>
      have hbody : ∀ y ∈ r.body, y ∈ known := fun y hy =>
        hmid y (List.mem_append_left _ (List.mem_append_right _ hy))
      intro x hx
      rcases List.mem_append.mp hx with hx | hx
      · exact hmid x (List.mem_append_left _ (List.mem_append_left _ hx))
      rcases List.mem_cons.mp hx with rfl | hx
      · exact hknown r hr hbody
      · exact hmid x (List.mem_append_right _ hx)

/-- A derivation that ends in a set closed backwards uses rules within the set only. -/
theorem ClosedBackward.derives (hknown : g.ClosedBackward known)
    (hrules : ∀ r ∈ g.rules, r.head ∈ known → (∀ y ∈ r.body, y ∈ known) → r ∈ h.rules)
    (hst : g.Derives s t) (ht : ∀ y ∈ t, y ∈ known) : h.Derives s t := by
  induction hst with
  | refl => exact .refl _
  | head hstep hrest ih =>
    have hmid := hknown.mem_of_derives hrest ht
    cases hstep with
    | @rule before after r hr =>
      have hbody : ∀ y ∈ r.body, y ∈ known := fun y hy =>
        hmid y (List.mem_append_left _ (List.mem_append_right _ hy))
      exact .head (.rule before after (hrules r hr (hknown r hr hbody) hbody)) (ih ht)

theorem ClosedForward.mem_of_produces (hknown : g.ClosedForward known) (hst : g.Produces s t)
    (hs : ∀ x ∈ s, x ∈ known) : ∀ y ∈ t, y ∈ known := by
  cases hst with
  | @rule before after r hr =>
    have hhead : r.head ∈ known := hs r.head (by simp)
    intro y hy
    rcases List.mem_append.mp hy with hy | hy
    · rcases List.mem_append.mp hy with hy | hy
      · exact hs y (List.mem_append_left _ hy)
      · exact hknown r hr hhead y hy
    · exact hs y (List.mem_append_right _ (List.mem_cons_of_mem _ hy))

/-- A derivation that begins in a set closed forwards uses rules for its symbols only. -/
theorem ClosedForward.derives (hknown : g.ClosedForward known)
    (hrules : ∀ r ∈ g.rules, r.head ∈ known → r ∈ h.rules)
    (hst : g.Derives s t) (hs : ∀ x ∈ s, x ∈ known) : h.Derives s t := by
  induction hst with
  | refl => exact .refl _
  | head hstep _ ih =>
    have hrest := ih (hknown.mem_of_produces hstep hs)
    cases hstep with
    | rule before after hr =>
      exact .head (.rule before after (hrules _ hr (hs _ (by simp)))) hrest

theorem Derives.mono (hrules : ∀ r ∈ g.rules, r ∈ h.rules) (hst : g.Derives s t) :
    h.Derives s t := by
  induction hst with
  | refl => exact .refl _
  | head hstep _ ih =>
    cases hstep with
    | rule before after hr => exact .head (.rule before after (hrules _ hr)) ih

/-! ### Symbols whose derivations come to an end -/

theorem mem_learn : x ∈ g.learn known ↔
    (∃ r ∈ g.rules, (∀ y ∈ r.body, y ∈ known) ∧ r.head = x) ∨ x ∈ known := by
  simp [learn, and_assoc]

/-- What a grammar can still learn: the heads of its rules that are not known. -/
def unlearned (g : Grammar) (known : SymbolSet) : List Symbol :=
  unknown (g.rules.toList.map (·.head)) known.toList

theorem length_unlearned_le (g : Grammar) (known : SymbolSet) :
    (g.unlearned known).length ≤ g.rules.size := by
  have hheads : (g.rules.toList.map (·.head)).length = g.rules.size := List.length_map ..
  rw [← hheads]
  exact List.length_filter_le _ _

theorem length_unlearned_learn_lt (hknown : g.learn known ≠ known) :
    (g.unlearned (g.learn known)).length < (g.unlearned known).length := by
  have hkept : ∀ y ∈ known, y ∈ g.learn known := fun y hy => mem_learn.mpr (.inr hy)
  obtain ⟨x, hx, hnew⟩ := SortedSet.exists_mem_notMem hkept hknown
  obtain ⟨r, hr, _, rfl⟩ := (mem_learn.mp hx).resolve_right hnew
  exact length_unknown_lt hkept (List.mem_map_of_mem hr) hnew hx

theorem closedBackward_derivingOnly (g : Grammar) (known : SymbolSet) :
    g.ClosedBackward (g.derivingOnly known) := by
  intro r hr hbody
  have hfixed : g.learn (g.derivingOnly known) = g.derivingOnly known :=
    saturate_fixed (fun s => (g.unlearned s).length) (fun _ => length_unlearned_learn_lt)
      (length_unlearned_le g known)
  rw [← hfixed]
  exact mem_learn.mpr (.inl ⟨r, hr, hbody, rfl⟩)

theorem subset_derivingOnly (hx : x ∈ known) : x ∈ g.derivingOnly known :=
  saturate_induction (P := fun s => x ∈ s) (fun _ h => mem_learn.mpr (.inr h)) _ hx

/-- Saturating finds the symbols from which words over known symbols are derived. -/
theorem mem_derivingOnly : x ∈ g.derivingOnly known ↔ g.DerivesOver known x := by
  refine ⟨fun hx => ?_, fun hx => ?_⟩
  · have hsound : ∀ y ∈ g.derivingOnly known, g.DerivesOver known y := by
      refine saturate_induction (P := fun s => ∀ y ∈ s, g.DerivesOver known y) ?_ _
        fun y hy => derivesOver_of_mem hy
      intro s hs y hy
      rcases mem_learn.mp hy with ⟨r, hr, hbody, rfl⟩ | hy
      · exact derivesOver_head hr fun z hz => hs z (hbody z hz)
      · exact hs y hy
    exact hsound x hx
  · obtain ⟨w, hw, hknown⟩ := hx
    exact (closedBackward_derivingOnly g known).mem_of_derives hw
      (fun y hy => subset_derivingOnly (hknown y hy)) x (List.mem_singleton.mpr rfl)

theorem mem_productive : x ∈ g.productive ↔ g.Productive x := mem_derivingOnly

/-! ### Symbols that occur in derivations -/

/-- Some text with `x` in it is derived from the start symbol. -/
def Occurs (g : Grammar) (x : Symbol) : Prop := ∃ u v, g.Derives [g.start] (u ++ x :: v)

theorem mem_produced : y ∈ g.produced x ↔ ∃ r ∈ g.rules, r.head = x ∧ y ∈ r.body := by
  simp only [produced, rulesFor, List.mem_flatMap, SortedSet.mem_toList, SortedSet.mem_filter,
    decide_eq_true_eq, and_assoc]

/-- One symbol leads to another through any number of bodies. -/
def LeadsTo (g : Grammar) : Symbol → Symbol → Prop :=
  Relation.ReflTransGen fun x y => y ∈ g.produced x

theorem LeadsTo.exists_derives (hxy : g.LeadsTo x y) : ∃ u v, g.Derives [x] (u ++ y :: v) := by
  induction hxy with
  | refl => exact ⟨[], [], .refl [x]⟩
  | tail _ hstep ih =>
    obtain ⟨u, v, hderives⟩ := ih
    obtain ⟨r, hr, rfl, hy⟩ := mem_produced.mp hstep
    obtain ⟨before, after, hbody⟩ := List.append_of_mem hy
    have hrule := Produces.rule u v hr
    rw [hbody] at hrule
    refine ⟨u ++ before, after ++ v, hderives.trans (.head ?_ (.refl _))⟩
    simpa using hrule

/-- Whatever occurs in a derived text was led to by a symbol of the text it comes from. -/
theorem Derives.exists_leadsTo (hst : g.Derives s t) (hy : y ∈ t) : ∃ x ∈ s, g.LeadsTo x y := by
  induction hst with
  | refl => exact ⟨y, hy, .refl⟩
  | head hstep _ ih =>
    obtain ⟨x, hx, hxy⟩ := ih hy
    cases hstep with
    | @rule before after r hr =>
      rcases List.mem_append.mp hx with hx | hx
      · rcases List.mem_append.mp hx with hx | hx
        · exact ⟨x, List.mem_append_left _ hx, hxy⟩
        · exact ⟨r.head, by simp, .head (mem_produced.mpr ⟨r, hr, rfl, hx⟩) hxy⟩
      · exact ⟨x, List.mem_append_right _ (List.mem_cons_of_mem _ hx), hxy⟩

theorem occurs_iff_leadsTo : g.Occurs x ↔ g.LeadsTo g.start x := by
  refine ⟨fun hx => ?_, LeadsTo.exists_derives⟩
  obtain ⟨u, v, hderives⟩ := hx
  obtain ⟨y, hy, hyx⟩ := hderives.exists_leadsTo (y := x) (by simp)
  rwa [List.mem_singleton.mp hy] at hyx

theorem mem_reachable : x ∈ g.reachable ↔ g.Occurs x := by
  have hspace : ∀ x, ∀ y ∈ g.produced x, y ∈ g.nonTerminals.toList ++ g.terminals.toList := by
    intro x y hy
    obtain ⟨r, hr, _, hbody⟩ := mem_produced.mp hy
    exact List.mem_append.mpr (g.valid.body_mem r hr y hbody)
  have hbound : (g.nonTerminals.toList ++ g.terminals.toList).length ≤
      g.nonTerminals.size + g.terminals.size := (List.length_append ..).le
  rw [reachable, SortedSet.mem_ofList, mem_closure hspace hbound, occurs_iff_leadsTo]
  simp [LeadsTo]

theorem closedForward_reachable (g : Grammar) : g.ClosedForward g.reachable := by
  intro r hr hhead y hy
  have hstep : y ∈ g.produced r.head := mem_produced.mpr ⟨r, hr, rfl, hy⟩
  rw [mem_reachable, occurs_iff_leadsTo] at hhead ⊢
  exact hhead.tail hstep

theorem start_mem_reachable (g : Grammar) : g.start ∈ g.reachable :=
  mem_reachable.mpr ⟨[], [], .refl _⟩

/-- Exploring finds exactly the symbols of which the start symbol derives a text, by any number of
steps, in which they occur. -/
theorem reachable_exact (g : Grammar) (x : Symbol) :
    x ∈ g.reachable ↔ ∃ s, g.Derives [g.start] s ∧ x ∈ s := by
  rw [mem_reachable]
  constructor
  · rintro ⟨u, v, hderives⟩
    exact ⟨u ++ x :: v, hderives, by simp⟩
  · rintro ⟨s, hderives, hx⟩
    obtain ⟨u, v, rfl⟩ := List.append_of_mem hx
    exact ⟨u, v, hderives⟩

end FormalLanguage.Grammar
