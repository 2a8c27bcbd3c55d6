import FormalLanguage.Automaton.Separation
import FormalLanguage.Proofs.Automaton.Acceptance
import FormalLanguage.Proofs.SortedSet
import Mathlib.Data.List.ProdSigma

/-! Telling two automata apart.

The routes of the search are the words over the letters of either automaton, and a
route ends in the pair of sets that the two runs end in. Only such words can be
accepted at all, so the search misses no word that tells the automata apart, and it
finds the first of them (`separatingWord?_exact`). -/
namespace FormalLanguage
open Exploration

def Symbol.Below (x y : Symbol) : Prop := compare x y = .lt

instance : Std.Asymm Symbol.Below where
  asymm x y hxy hyx := by
    have hgt : compare y x = .gt := Std.OrientedCmp.gt_of_lt hxy
    rw [Symbol.Below, hgt] at hyx
    exact absurd hyx (by decide)

theorem Symbol.Below.trans (x y z : Symbol) (hxy : x.Below y) (hyz : y.Below z) : x.Below z :=
  Std.TransCmp.lt_trans hxy hyz

/-- Words in the order of the search: shorter ones first, those of one length symbol by symbol. -/
def Word.Before (v w : Word) : Prop := List.Shortlex Symbol.Below v w

theorem Word.Before.asymm {v w : Word} (h : v.Before w) : ¬ w.Before v :=
  List.Shortlex.asymm.asymm v w h

namespace Automaton
variable {a b : Automaton} {w : Word} {p : StateSet × StateSet}

/-- Exactly one of two automata accepts `w`, in which every symbol is read. -/
def TellsApart (a b : Automaton) (w : Word) : Prop :=
  Symbol.epsilon ∉ w ∧ a.accepts w ≠ b.accepts w

theorem mem_letters_of_accepts {x : Symbol} (h : a.accepts w = true) (hx : x ∈ w.letters) :
    x ∈ a.letters := by
  obtain ⟨q, hq, _⟩ := hasFinal_iff.mp h
  exact mem_letters.mpr ⟨mem_alphabet_of_mem_run hq hx, (Word.mem_letters.mp hx).2⟩

/-! ### Routes of the search -/

theorem mem_pairEdges {x : Symbol} {p p' : StateSet × StateSet} :
    (x, p') ∈ a.pairEdges b p ↔ x ∈ a.letters ∪ b.letters ∧ p' = (a.step p.1 x, b.step p.2 x) := by
  simp only [pairEdges, List.mem_map, Prod.mk.injEq, SortedSet.mem_toList]
  refine ⟨fun h => ?_, fun h => ?_⟩
  · obtain ⟨y, hy, rfl, rfl⟩ := h
    exact ⟨hy, rfl⟩
  · exact ⟨x, h.1, rfl, h.2.symm⟩

theorem ne_epsilon_of_mem_union {x : Symbol} (hx : x ∈ a.letters ∪ b.letters) : x ≠ .epsilon := by
  rcases SortedSet.mem_union.mp hx with hx | hx
  · exact (mem_letters.mp hx).2
  · exact (mem_letters.mp hx).2

theorem route_pairEdges_iff : Route (a.pairEdges b) [(a.initial, b.initial)] w p ↔
    (∀ x ∈ w, x ∈ a.letters ∪ b.letters) ∧ p = (a.run w, b.run w) := by
  refine ⟨fun h => ?_, fun h => ?_⟩
  · induction h with
    | start hp => exact ⟨nofun, List.mem_singleton.mp hp⟩
    | @step w p p' x _ hx ih =>
      obtain ⟨hw, rfl⟩ := ih
      obtain ⟨hmem, rfl⟩ := mem_pairEdges.mp hx
      have hletter := ne_epsilon_of_mem_union hmem
      refine ⟨fun y hy => ?_, ?_⟩
      · rcases List.mem_append.mp hy with hy | hy
        · exact hw y hy
        · rw [List.mem_singleton.mp hy]
          exact hmem
      · rw [run_append_letter w hletter, run_append_letter w hletter]
  · obtain ⟨hw, rfl⟩ := h
    induction w using List.reverseRecOn with
    | nil => exact .start (List.mem_singleton.mpr rfl)
    | append_singleton w x ih =>
      have hx : x ∈ a.letters ∪ b.letters := hw x (by simp)
      have hletter := ne_epsilon_of_mem_union hx
      refine (ih fun y hy => hw y (List.mem_append_left _ hy)).step (mem_pairEdges.mpr ⟨hx, ?_⟩)
      rw [run_append_letter w hletter, run_append_letter w hletter]

/-- The words that tell two automata apart are the routes to a pair with one accepting side. -/
theorem tellsApart_iff : a.TellsApart b w ↔
    ∃ p, Route (a.pairEdges b) [(a.initial, b.initial)] w p ∧ a.separates b p = true := by
  have hseparates : a.separates b (a.run w, b.run w) = true ↔ a.accepts w ≠ b.accepts w :=
    bne_iff_ne
  refine ⟨fun h => ?_, fun h => ?_⟩
  · obtain ⟨hepsilon, hne⟩ := h
    refine ⟨_, route_pairEdges_iff.mpr ⟨fun x hx => ?_, rfl⟩, hseparates.mpr hne⟩
    have hx : x ∈ w.letters := by rwa [Word.letters_eq_self hepsilon]
    -- One of the automata accepts, so all letters are declared there.
    cases ha : a.accepts w with
    | true => exact SortedSet.mem_union.mpr (.inl (mem_letters_of_accepts ha hx))
    | false =>
      have hb : b.accepts w = true := by
        rw [ha] at hne
        exact Bool.eq_true_of_not_eq_false (Ne.symm hne)
      exact SortedSet.mem_union.mpr (.inr (mem_letters_of_accepts hb hx))
  · obtain ⟨p, hroute, hp⟩ := h
    obtain ⟨hw, rfl⟩ := route_pairEdges_iff.mp hroute
    exact ⟨fun he => ne_epsilon_of_mem_union (hw _ he) rfl, hseparates.mp hp⟩

/-! ### The search -/

/-- The pairs of sets that two runs can meet. -/
def setPairs (a b : Automaton) : List (StateSet × StateSet) :=
  a.states.subsets ×ˢ b.states.subsets

theorem mem_setPairs_of_mem_pairEdges (p : StateSet × StateSet) :
    ∀ e ∈ a.pairEdges b p, e.2 ∈ a.setPairs b := by
  intro e he
  obtain ⟨_, hp⟩ := mem_pairEdges.mp he
  rw [hp]
  exact List.pair_mem_product.mpr ⟨SortedSet.mem_subsets.mpr fun q hq => states_of_mem_step hq,
    SortedSet.mem_subsets.mpr fun q hq => states_of_mem_step hq⟩

theorem length_subsets_states (a : Automaton) : a.states.subsets.length = a.setCount :=
  SortedSet.length_subsets a.states

theorem length_setPairs (a b : Automaton) :
    (a.setPairs b).length = a.setCount * b.setCount := by
  rw [setPairs, List.length_product, length_subsets_states, length_subsets_states]

theorem pairEdges_ordered (p : StateSet × StateSet) :
    (a.pairEdges b p).Pairwise fun e f => e.1.Below f.1 := by
  rw [pairEdges, List.pairwise_map]
  exact (a.letters ∪ b.letters).increasing

theorem separatingWord?_eq_none_iff :
    a.separatingWord? b = none ↔ ∀ w, a.accepts w = b.accepts w := by
  rw [separatingWord?, pathTo?_eq_none_iff Symbol.Below.trans
    pairEdges_ordered mem_setPairs_of_mem_pairEdges (length_setPairs a b).le]
  refine ⟨fun h w => ?_, fun h w p hroute => ?_⟩
  · by_contra hne
    have hletters : a.TellsApart b w.letters := by
      refine ⟨w.epsilon_notMem_letters, ?_⟩
      rw [accepts, accepts, run_letters, run_letters]
      exact hne
    obtain ⟨p, hroute, hp⟩ := tellsApart_iff.mp hletters
    rw [h _ p hroute] at hp
    exact absurd hp (by decide)
  · rw [← Bool.not_eq_true]
    exact fun hp => (tellsApart_iff.mpr ⟨p, hroute, hp⟩).2 (h w)

theorem before_of_separatingWord? (h : a.separatingWord? b = some w) :
    a.TellsApart b w ∧ ∀ v, a.TellsApart b v → v ≠ w → w.Before v := by
  obtain ⟨hw, hfirst⟩ := pathTo?_first Symbol.Below.trans pairEdges_ordered
    mem_setPairs_of_mem_pairEdges (length_setPairs a b).le h
  refine ⟨tellsApart_iff.mpr hw, fun v hv hne => ?_⟩
  obtain ⟨p, hroute, hp⟩ := tellsApart_iff.mp hv
  exact hfirst v p hroute hp hne

/-- The search fails exactly for automata that accept the same words, and finds `w` exactly if
`w` is the first of all words that tell the automata apart. -/
theorem separatingWord?_exact (a b : Automaton) :
    (a.separatingWord? b = none ↔ ∀ w, a.accepts w = b.accepts w) ∧
      ∀ w, a.separatingWord? b = some w ↔
        a.TellsApart b w ∧ ∀ v, a.TellsApart b v → v ≠ w → w.Before v := by
  refine ⟨separatingWord?_eq_none_iff, fun w => ⟨before_of_separatingWord?, fun h => ?_⟩⟩
  obtain ⟨hw, hfirst⟩ := h
  cases hfound : a.separatingWord? b with
  | none => exact absurd (separatingWord?_eq_none_iff.mp hfound w) hw.2
  | some v =>
    obtain ⟨hv, hfirst'⟩ := before_of_separatingWord? hfound
    by_cases hvw : v = w
    · rw [hvw]
    · exact absurd (hfirst' w hw (Ne.symm hvw)) (hfirst v hv hvw).asymm

end Automaton
end FormalLanguage
