import FormalLanguage.Proofs.Automaton.Validation
import FormalLanguage.Proofs.Text
import FormalLanguage.Sampling.Automaton
import Mathlib.Algebra.Order.Field.Basic
import Mathlib.Algebra.Order.Field.Rat
import Mathlib.Tactic.Linarith
import Mathlib.Tactic.Positivity

/-! What is drawn, whatever the numbers are.

A property of everything that can be drawn is one of what is drawn from every source
(`Yields`), and goes from each draw to those that use its result. A chance of zero or
less never succeeds and one of one or more always does, so there what is kept of a
list is nothing or all of it (`yields_keep_constant`).

Whatever states are final and whatever transitions are kept, all that a random
automaton mentions is declared. So it is drawn without a failure, and in the promised
shape (`automaton_shape`). -/
namespace FormalLanguage.Sampling
open Text Automaton

/-! ### Drawing from every source -/

/-- Whatever the source, the property holds of what is drawn. -/
def Yields {α : Type} (d : Draw α) (P : α → Prop) : Prop := ∀ source, P (d.run source).1

section Yields
variable {α β : Type} {d : Draw α} {P : α → Prop} {Q : β → Prop}

theorem Yields.pure {a : α} (h : P a) : Yields (pure a) P := fun _ => h

theorem Yields.bind {f : α → Draw β} (hd : Yields d P) (hf : ∀ a, P a → Yields (f a) Q) :
    Yields (d >>= f) Q := fun source => hf _ (hd source) (d.run source).2

theorem yields_below {n : Nat} (hn : 0 < n) : Yields (below n) (· < n) :=
  fun _ => Nat.mod_lt _ hn

theorem yields_chance {p : Rat} (hp : p ≤ 0 ∨ 1 ≤ p) : Yields (chance p) (· = decide (1 ≤ p)) := by
  refine (yields_below (n := resolution) (by decide)).bind fun point hpoint => .pure ?_
  -- The point lies between zero and one, one excluded.
  have hlow : 0 ≤ mkRat point resolution := by
    rw [Rat.mkRat_eq_div]
    positivity
  have hhigh : mkRat point resolution < 1 := by
    rw [Rat.mkRat_eq_div, div_lt_one (by simp [resolution])]
    exact_mod_cast hpoint
  refine decide_eq_decide.mpr ?_
  rcases hp with hp | hp
  · constructor <;> intro h <;> linarith
  · exact iff_of_true (hhigh.trans_le hp) hp

theorem yields_keep_sublist (decision : Draw Bool) (l : List α) :
    Yields (keep decision l) (List.Sublist · l) := by
  induction l with
  | nil => exact .pure .slnil
  | cons a l ih =>
    have hdecision : Yields decision fun _ => True := fun _ => trivial
    refine hdecision.bind fun kept _ => ih.bind fun others hothers => .pure ?_
    cases kept with
    | false => exact hothers.cons a
    | true => exact hothers.cons_cons a

/-- Decisions that all go one way keep everything or nothing. -/
theorem yields_keep_constant {decision : Draw Bool} {b : Bool} (h : Yields decision (· = b))
    (l : List α) : Yields (keep decision l) (· = if b then l else []) := by
  induction l with
  | nil => exact .pure (by simp)
  | cons a l ih =>
    refine h.bind fun kept hkept => ih.bind fun others hothers => .pure ?_
    rw [hkept, hothers]
    cases b <;> rfl

/-- Some of the elements, and all or none of them where the chance is certain. -/
structure Kept (p : Rat) (l kept : List α) : Prop where
  subset : kept ⊆ l
  eq_of_certain : p ≤ 0 ∨ 1 ≤ p → kept = if 1 ≤ p then l else []

theorem Kept.mem_iff {p : Rat} {l kept : List α} {a : α} (h : Kept p l kept)
    (hp : p ≤ 0 ∨ 1 ≤ p) : a ∈ kept ↔ 1 ≤ p ∧ a ∈ l := by
  rw [h.eq_of_certain hp]
  split <;> simp [*]

theorem yields_keep_chance (p : Rat) (l : List α) : Yields (keep (chance p) l) (Kept p l) := by
  refine fun source => ⟨(yields_keep_sublist (chance p) l source).subset, fun hp => ?_⟩
  simpa using yields_keep_constant (yields_chance hp) l source

end Yields

/-! ### States and letters -/

variable {size letters : Nat} {q : State} {x : Symbol} {t : Transition}
  {chosen : List State} {reading silent : List Transition}

theorem numberedState_chars (i : Nat) : (numberedState i).chars = 'q' :: Nat.toDigits 10 i := by
  refine trim_eq_self (trimmed_of_forall fun c hc => ?_)
  rcases List.mem_cons.mp hc with rfl | hc
  · decide
  · have hdigit := Nat.isDigit_of_mem_toDigits (by decide) (Nat.le_refl 10) hc
    obtain ⟨hlow, hhigh⟩ := Char.isDigit_iff_toNat.mp hdigit
    exact isBlank_eq_false_of_between (Nat.le_trans (by decide) hlow)
      (Nat.le_trans hhigh (by decide))

theorem numberedState_injective : Function.Injective numberedState := by
  intro i j h
  have hchars : (numberedState i).chars = (numberedState j).chars := congrArg (·.chars) h
  rw [numberedState_chars, numberedState_chars] at hchars
  rw [← Nat.ofDigitChars_ten_toDigits (n := i), (List.cons.inj hchars).2,
    Nat.ofDigitChars_ten_toDigits]

theorem numberedState_text (i : Nat) : (numberedState i).text = "q" ++ toString i := by
  rw [Label.text, numberedState_chars, Nat.toString_eq_ofList_toDigits, ← List.singleton_append,
    String.ofList_append]

theorem eq_numberedState_iff {i : Nat} : q = numberedState i ↔ q.text = "q" ++ toString i := by
  rw [← numberedState_text]
  refine ⟨fun h => h ▸ rfl, fun h => ?_⟩
  exact State.toLabel_injective (Label.chars_injective (String.ofList_injective h))

theorem mem_numberedStates : q ∈ numberedStates size ↔ ∃ i < size, q.text = "q" ++ toString i := by
  simp only [numberedStates, List.mem_map, List.mem_range, ← eq_numberedState_iff,
    eq_comm (a := q)]

theorem nodup_numberedStates (size : Nat) : (numberedStates size).Nodup :=
  List.nodup_range.map numberedState_injective

/-- One of the first lowercase letters. -/
def FirstLetter (count : Nat) (x : Symbol) : Prop :=
  ∃ c : Char, 'a'.toNat ≤ c.toNat ∧ c.toNat < 'a'.toNat + count ∧ x.chars = [c]

theorem FirstLetter.ne_epsilon (h : FirstLetter letters x) : x ≠ .epsilon := by
  rintro rfl
  obtain ⟨c, _, _, hc⟩ := h
  cases hc

theorem mem_lowercase (h : letters ≤ 26) : x ∈ lowercase letters ↔ FirstLetter letters x := by
  have hchars {c : Char} (hlow : 'a'.toNat ≤ c.toNat) (hhigh : c.toNat < 'a'.toNat + letters) :
      (Symbol.ofChars [c]).chars = [c] := by
    have ha : 'a'.toNat = 97 := rfl
    have hblank : isBlank c = false := isBlank_eq_false_of_between (by omega) (by omega)
    exact trim_eq_self (trimmed_of_forall fun d hd => List.mem_singleton.mp hd ▸ hblank)
  simp only [lowercase, List.mem_map, List.mem_range]
  constructor
  · rintro ⟨i, hi, rfl⟩
    have hnumber : ∀ i < 26, (Char.ofNat ('a'.toNat + i)).toNat = 'a'.toNat + i := by decide
    have hi' := hnumber i (by omega)
    have hlow : 'a'.toNat ≤ (Char.ofNat ('a'.toNat + i)).toNat := by omega
    have hhigh : (Char.ofNat ('a'.toNat + i)).toNat < 'a'.toNat + letters := by omega
    exact ⟨_, hlow, hhigh, hchars hlow hhigh⟩
  · rintro ⟨c, hlow, hhigh, hx⟩
    refine ⟨c.toNat - 'a'.toNat, by omega, ?_⟩
    rw [Nat.add_sub_cancel' hlow, Char.ofNat_toNat, ← hx, Symbol.ofChars_chars]

/-! ### Transitions -/

theorem mem_letterTransitions (h : letters ≤ 26) : t ∈ letterTransitions size letters ↔
    t.source ∈ numberedStates size ∧ FirstLetter letters t.symbol ∧
      t.target ∈ numberedStates size := by
  obtain ⟨p, x, q⟩ := t
  simp [letterTransitions, ← mem_lowercase h]

theorem mem_epsilonTransitions : t ∈ epsilonTransitions size ↔ t.source ∈ numberedStates size ∧
    t.symbol = .epsilon ∧ t.target ∈ numberedStates size ∧ t.source ≠ t.target := by
  obtain ⟨p, x, q⟩ := t
  simp only [epsilonTransitions, List.mem_flatMap, List.mem_map, List.mem_filter,
    decide_eq_true_eq, Transition.mk.injEq]
  constructor
  · rintro ⟨p, hp, q, ⟨hq, hne⟩, rfl, rfl, rfl⟩
    exact ⟨hp, rfl, hq, hne.symm⟩
  · rintro ⟨hp, rfl, hq, hne⟩
    exact ⟨p, hp, q, ⟨hq, hne.symm⟩, rfl, rfl, rfl⟩

/-! ### Automata -/

theorem yields_finals (hsize : 1 ≤ size) : Yields (finals size) fun chosen =>
    chosen ≠ [] ∧ chosen ⊆ numberedStates size := by
  refine (yields_keep_sublist coin (numberedStates size)).bind fun chosen hchosen => ?_
  split
  · refine (yields_below hsize).bind fun i hi => .pure ⟨List.cons_ne_nil _ _, ?_⟩
    exact List.cons_subset.mpr ⟨List.mem_map_of_mem (List.mem_range.mpr hi), List.nil_subset _⟩
  · next hne => exact .pure ⟨fun hnil => hne (List.isEmpty_iff.mpr hnil), hchosen.subset⟩

/-- Whatever final states and transitions are chosen, they fit. -/
theorem exists_assemble (hsize : 1 ≤ size) (hletters : letters ≤ 26) (hne : chosen ≠ [])
    (hchosen : chosen ⊆ numberedStates size) (hreading : reading ⊆ letterTransitions size letters)
    (hsilent : silent ⊆ epsilonTransitions size) :
    ∃ a, assemble size letters chosen reading silent = .ok a ∧
      HasListed (lowercase letters ++ silent.map (·.symbol)) (numberedStates size) chosen
        (numberedState 0) (reading ++ silent) a := by
  have hfits : Fits (lowercase letters ++ silent.map (·.symbol)) (numberedStates size) chosen
      (numberedState 0) (reading ++ silent) := by
    refine ⟨List.mem_map_of_mem (List.mem_range.mpr hsize), hchosen, hne, fun t ht => ?_,
      fun t ht => ?_⟩
    · rcases List.mem_append.mp ht with ht | ht
      · obtain ⟨hsource, _, htarget⟩ := (mem_letterTransitions hletters).mp (hreading ht)
        exact ⟨hsource, htarget⟩
      · obtain ⟨hsource, _, htarget, _⟩ := mem_epsilonTransitions.mp (hsilent ht)
        exact ⟨hsource, htarget⟩
    · rcases List.mem_append.mp ht with ht | ht
      · obtain ⟨_, hsymbol, _⟩ := (mem_letterTransitions hletters).mp (hreading ht)
        exact List.mem_append_left _ ((mem_lowercase hletters).mpr hsymbol)
      · exact List.mem_append_right _ (List.mem_map_of_mem ht)
  have ha : assemble size letters chosen reading silent = .ok _ :=
    validate_eq_ok (valid_listed_iff.mpr hfits)
  exact ⟨_, ha, hasListed_of_ofLists ha⟩

/-- States `q0`, `q1`, … of which the first is the start state and some are final, and the first
lowercase letters, with `ε` if a transition reads it. If the density is certain, there are all
transitions on the letters or none, and if the chance of `ε` is, all on `ε` from a state to another
one or none. -/
structure HasShape (size letters : Nat) (density epsilon : Rat) (a : Automaton) : Prop where
  size_eq : a.states.size = size
  states_iff : ∀ q, q ∈ a.states ↔ ∃ i < size, q.text = "q" ++ toString i
  start_eq : a.start.text = "q0"
  finals_nonempty : ∃ q, q ∈ a.finals
  finals_mem : ∀ q ∈ a.finals, q ∈ a.states
  reading_iff : density ≤ 0 ∨ 1 ≤ density → ∀ t, t.symbol ≠ .epsilon → (t ∈ a.transitions ↔
    1 ≤ density ∧ t.source ∈ a.states ∧ FirstLetter letters t.symbol ∧ t.target ∈ a.states)
  silent_iff : epsilon ≤ 0 ∨ 1 ≤ epsilon → ∀ t, t.symbol = .epsilon → (t ∈ a.transitions ↔
    1 ≤ epsilon ∧ t.source ∈ a.states ∧ t.target ∈ a.states ∧ t.source ≠ t.target)
  alphabet_iff : ∀ x, x ∈ a.alphabet ↔
    FirstLetter letters x ∨ x = .epsilon ∧ ∃ t ∈ a.transitions, t.symbol = .epsilon

section Listed
variable {a : Automaton} {density epsilon : Rat}

/-- What was kept of the transitions on `ε` is on `ε`, so a transition on a letter is one that was
kept of the others. -/
theorem mem_reading_iff (hsilent : silent ⊆ epsilonTransitions size)
    (ha : ∀ t, t ∈ a.transitions ↔ t ∈ reading ++ silent) (hne : t.symbol ≠ .epsilon) :
    t ∈ a.transitions ↔ t ∈ reading := by
  rw [ha, List.mem_append]
  refine or_iff_left fun ht => ?_
  obtain ⟨_, hsymbol, _⟩ := mem_epsilonTransitions.mp (hsilent ht)
  exact hne hsymbol

theorem mem_silent_iff (hletters : letters ≤ 26)
    (hreading : reading ⊆ letterTransitions size letters)
    (ha : ∀ t, t ∈ a.transitions ↔ t ∈ reading ++ silent) (heq : t.symbol = .epsilon) :
    t ∈ a.transitions ↔ t ∈ silent := by
  rw [ha, List.mem_append]
  refine or_iff_right fun ht => ?_
  obtain ⟨_, hletter, _⟩ := (mem_letterTransitions hletters).mp (hreading ht)
  exact hletter.ne_epsilon heq

theorem hasShape_of_hasListed (hletters : letters ≤ 26) (hne : chosen ≠ [])
    (hreading : Kept density (letterTransitions size letters) reading)
    (hsilent : Kept epsilon (epsilonTransitions size) silent)
    (ha : HasListed (lowercase letters ++ silent.map (·.symbol)) (numberedStates size) chosen
      (numberedState 0) (reading ++ silent) a) : HasShape size letters density epsilon a where
  size_eq := by
    have hstates : a.states = .ofList (numberedStates size) :=
      SortedSet.ext fun q => (ha.states_iff q).trans SortedSet.mem_ofList.symm
    rw [hstates, SortedSet.size_ofList_of_nodup (nodup_numberedStates size), numberedStates,
      List.length_map, List.length_range]
  states_iff q := (ha.states_iff q).trans mem_numberedStates
  start_eq := by
    rw [ha.start_eq]
    exact numberedState_text 0
  finals_nonempty := by
    obtain ⟨q, hq⟩ := List.exists_mem_of_ne_nil chosen hne
    exact ⟨q, (ha.finals_iff q).mpr hq⟩
  finals_mem := a.valid.finals_mem
  reading_iff hcertain t ht := by
    rw [mem_reading_iff hsilent.subset ha.transitions_iff ht, hreading.mem_iff hcertain,
      mem_letterTransitions hletters, ha.states_iff, ha.states_iff]
  silent_iff hcertain t ht := by
    rw [mem_silent_iff hletters hreading.subset ha.transitions_iff ht, hsilent.mem_iff hcertain,
      mem_epsilonTransitions, and_iff_right ht, ha.states_iff, ha.states_iff]
  alphabet_iff x := by
    rw [ha.alphabet_iff, List.mem_append, mem_lowercase hletters, List.mem_map]
    refine or_congr_right ⟨?_, ?_⟩
    · rintro ⟨t, ht, rfl⟩
      obtain ⟨_, hsymbol, _⟩ := mem_epsilonTransitions.mp (hsilent.subset ht)
      exact ⟨hsymbol, t, (ha.transitions_iff t).mpr (List.mem_append_right _ ht), hsymbol⟩
    · rintro ⟨rfl, t, ht, hsymbol⟩
      have hsilent := mem_silent_iff hletters hreading.subset ha.transitions_iff hsymbol
      exact ⟨t, hsilent.mp ht, hsymbol⟩

end Listed

/-- Whatever is drawn, an automaton of the promised shape comes of it. -/
theorem automaton_shape {size letters : Nat} (hsize : 1 ≤ size) (hletters : letters ≤ 26)
    (density epsilon : Rat) (source : Source) :
    ∃ a, ((automaton size letters density epsilon).run source).1 = .ok a ∧
      HasShape size letters density epsilon a := by
  suffices hyields : Yields (automaton size letters density epsilon) fun result =>
      ∃ a, result = .ok a ∧ HasShape size letters density epsilon a from hyields source
  rw [automaton, if_neg (by omega), if_neg (by omega)]
  refine (yields_finals hsize).bind fun chosen ⟨hne, hchosen⟩ => ?_
  refine (yields_keep_chance density _).bind fun reading hreading => ?_
  refine (yields_keep_chance epsilon _).bind fun silent hsilent => .pure ?_
  obtain ⟨a, hok, ha⟩ := exists_assemble hsize hletters hne hchosen hreading.subset hsilent.subset
  rw [hok]
  exact ⟨a, rfl, hasShape_of_hasListed hletters hne hreading hsilent ha⟩

/-- Three states with all transitions on two letters, and none on `ε`. -/
theorem automaton_shape_three : 1 ≤ 3 ∧ 2 ≤ 26 ∧
    ∃ a, ((automaton 3 2 1 0).run ⟨fun _ => 0, 0⟩).1 = .ok a ∧ HasShape 3 2 1 0 a :=
  ⟨by decide, by decide, automaton_shape (by decide) (by decide) 1 0 _⟩

end FormalLanguage.Sampling
