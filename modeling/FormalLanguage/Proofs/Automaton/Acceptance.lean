import FormalLanguage.Automaton.Walk
import FormalLanguage.Proofs.Automaton.Closure

/-! What running an automaton finds out.

`mem_foldl_step` says that the states after some letters are those that walks
reading these letters lead to, wherever in the walk it moves without reading. So
an automaton accepts a word exactly if a walk from its start state to a final
state reads it (`accepts_iff_walk`). -/
namespace FormalLanguage
variable {a : Automaton} {s : StateSet} {q p r : State} {w : Word} {x : Symbol}

/-! ### Letters -/

theorem Word.letters_append (v w : Word) : Word.letters (v ++ w) = v.letters ++ w.letters :=
  List.filter_append ..

theorem Word.mem_letters : x ∈ w.letters ↔ x ∈ w ∧ x ≠ .epsilon := by
  simp [Word.letters, ← Symbol.isEpsilon_iff]

theorem Word.letters_eq_self (h : Symbol.epsilon ∉ w) : w.letters = w := by
  refine List.filter_eq_self.mpr fun x hx => ?_
  rw [Bool.not_eq_true', ← Bool.not_eq_true, Symbol.isEpsilon_iff]
  exact fun he => h (he ▸ hx)

theorem Word.epsilon_notMem_letters (w : Word) : Symbol.epsilon ∉ w.letters :=
  fun h => (mem_letters.mp h).2 rfl

theorem Word.letters_letters (w : Word) : w.letters.letters = w.letters :=
  letters_eq_self w.epsilon_notMem_letters

theorem SymbolSet.mem_letters {s : SymbolSet} : x ∈ s.letters ↔ x ∈ s ∧ x ≠ .epsilon := by
  simp [SymbolSet.letters, ← Symbol.isEpsilon_iff]

namespace Automaton

theorem mem_letters : x ∈ a.letters ↔ x ∈ a.alphabet ∧ x ≠ .epsilon := SymbolSet.mem_letters

/-! ### Walks -/

theorem wordOf_cons_epsilon {t : Transition} {ts : List Transition} (h : t.symbol = .epsilon) :
    wordOf (t :: ts) = wordOf ts := by
  simp [wordOf, Word.letters, Symbol.isEpsilon_iff.mpr h]

theorem wordOf_cons_letter {t : Transition} {ts : List Transition} (h : t.symbol ≠ .epsilon) :
    wordOf (t :: ts) = t.symbol :: wordOf ts := by
  have hletter : t.symbol.isEpsilon = false := by
    rw [← Bool.not_eq_true, Symbol.isEpsilon_iff]
    exact h
  simp [wordOf, Word.letters, hletter]

/-- A chain of moves that read nothing is a walk that reads nothing. -/
theorem EpsilonChain.exists_walk (h : a.EpsilonChain q p) :
    ∃ ts, a.Walk q ts p ∧ wordOf ts = [] := by
  induction h with
  | refl => exact ⟨[], .nil q, rfl⟩
  | @tail r p _ hmove ih =>
    obtain ⟨ts, hwalk, hword⟩ := ih
    refine ⟨ts ++ [⟨r, .epsilon, p⟩], hwalk.append (.cons hmove (.nil p)), ?_⟩
    rw [wordOf_append, hword, wordOf_cons_epsilon rfl]
    rfl

theorem Walk.mem_transitions {ts : List Transition} {t : Transition} (h : a.Walk q ts p)
    (ht : t ∈ ts) : t ∈ a.transitions := by
  induction h with
  | nil => exact absurd ht List.not_mem_nil
  | cons ht' _ ih =>
    rcases List.mem_cons.mp ht with rfl | ht
    · exact ht'
    · exact ih ht

theorem Walk.mem_states {ts : List Transition} (h : a.Walk q ts p) (hq : q ∈ a.states) :
    p ∈ a.states := by
  induction h with
  | nil => exact hq
  | cons ht _ ih => exact ih (a.valid.target_mem _ ht)

theorem EpsilonClosed.target_mem {t : Transition} (hs : a.EpsilonClosed s)
    (ht : t ∈ a.transitions) (hsymbol : t.symbol = .epsilon) (hq : t.source ∈ s) :
    t.target ∈ s := by
  refine hs t.source hq t.target ?_
  show (⟨t.source, .epsilon, t.target⟩ : Transition) ∈ a.transitions
  rw [← hsymbol]
  exact ht

/-- A walk that reads nothing does not leave a closed set. -/
theorem Walk.mem_of_wordOf_nil {ts : List Transition} (h : a.Walk q ts p)
    (hs : a.EpsilonClosed s) (hq : q ∈ s) (hword : wordOf ts = []) : p ∈ s := by
  induction h with
  | nil => exact hq
  | @cons t ts p ht _ ih =>
    by_cases hsymbol : t.symbol = .epsilon
    · rw [wordOf_cons_epsilon hsymbol] at hword
      exact ih (hs.target_mem ht hsymbol hq) hword
    · rw [wordOf_cons_letter hsymbol] at hword
      exact absurd hword (List.cons_ne_nil _ _)

/-- A walk out of a closed set that reads a letter first leaves it by that letter. -/
theorem Walk.exists_letter {ts : List Transition} (h : a.Walk q ts p) (hs : a.EpsilonClosed s)
    (hq : q ∈ s) (hword : wordOf ts = x :: w) :
    ∃ q' ∈ s, ∃ r us, ⟨q', x, r⟩ ∈ a.transitions ∧ a.Walk r us p ∧ wordOf us = w := by
  induction h with
  | nil => exact absurd hword (by simp [wordOf, Word.letters])
  | @cons t ts p ht hts ih =>
    by_cases hsymbol : t.symbol = .epsilon
    · rw [wordOf_cons_epsilon hsymbol] at hword
      exact ih (hs.target_mem ht hsymbol hq) hword
    · rw [wordOf_cons_letter hsymbol] at hword
      obtain ⟨rfl, rfl⟩ := List.cons.inj hword
      exact ⟨t.source, hq, t.target, ts, ht, hts, rfl⟩

/-! ### Runs -/

/-- The states after letters are those that walks reading these letters lead to. -/
theorem mem_foldl_step (hs : a.EpsilonClosed s) (hw : Symbol.epsilon ∉ w) :
    p ∈ w.foldl a.step s ↔ ∃ q ∈ s, ∃ ts, a.Walk q ts p ∧ wordOf ts = w := by
  induction w generalizing s with
  | nil =>
    refine ⟨fun hp => ⟨p, hp, [], .nil p, rfl⟩, fun h => ?_⟩
    obtain ⟨q, hq, ts, hwalk, hword⟩ := h
    exact hwalk.mem_of_wordOf_nil hs hq hword
  | cons x w ih =>
    obtain ⟨hx, hw⟩ := not_or.mp (mt List.mem_cons.mpr hw)
    rw [List.foldl_cons, ih (epsilonClosed_step a s x) hw]
    refine ⟨fun h => ?_, fun h => ?_⟩
    · obtain ⟨r, hr, us, hus, hword⟩ := h
      obtain ⟨q, hq, r', ht, hchain⟩ := mem_step.mp hr
      obtain ⟨vs, hvs, hsilent⟩ := hchain.exists_walk
      refine ⟨q, hq, ⟨q, x, r'⟩ :: (vs ++ us), .cons ht (hvs.append hus), ?_⟩
      rw [wordOf_cons_letter (Ne.symm hx), wordOf_append, hsilent, hword]
      rfl
    · obtain ⟨q, hq, ts, hwalk, hword⟩ := h
      obtain ⟨q', hq', r, us, ht, hus, hrest⟩ := hwalk.exists_letter hs hq hword
      exact ⟨r, mem_step.mpr ⟨q', hq', r, ht, .refl⟩, us, hus, hrest⟩

theorem mem_run : p ∈ a.run w ↔ ∃ ts, a.Walk a.start ts p ∧ wordOf ts = w.letters := by
  rw [run, runFrom, mem_foldl_step (epsilonClosed_initial a) w.epsilon_notMem_letters]
  refine ⟨fun h => ?_, fun h => ?_⟩
  · obtain ⟨q, hq, ts, hwalk, hword⟩ := h
    obtain ⟨us, hus, hsilent⟩ := (mem_initial.mp hq).exists_walk
    refine ⟨us ++ ts, hus.append hwalk, ?_⟩
    rw [wordOf_append, hsilent, hword]
    rfl
  · obtain ⟨ts, hwalk, hword⟩ := h
    exact ⟨a.start, start_mem_initial a, ts, hwalk, hword⟩

theorem mem_states_of_mem_run (hp : p ∈ a.run w) : p ∈ a.states := by
  obtain ⟨ts, hwalk, _⟩ := mem_run.mp hp
  exact hwalk.mem_states a.valid.start_mem

theorem run_letters (a : Automaton) (w : Word) : a.run w.letters = a.run w := by
  rw [run, run, runFrom, runFrom, w.letters_letters]

theorem run_append_letter (w : Word) (hx : x ≠ .epsilon) :
    a.run (w ++ [x]) = a.step (a.run w) x := by
  have hletters : Word.letters [x] = [x] := Word.letters_eq_self (by simpa using hx.symm)
  rw [run, run, runFrom, runFrom, Word.letters_append, hletters, List.foldl_append]
  rfl

theorem run_append_epsilon (a : Automaton) (w : Word) : a.run (w ++ [.epsilon]) = a.run w := by
  have hletters : Word.letters [.epsilon] = [] := rfl
  rw [run, run, runFrom, runFrom, Word.letters_append, hletters, List.append_nil]

/-- A run that is not stuck has read declared symbols only. -/
theorem mem_alphabet_of_mem_run (hp : p ∈ a.run w) (hx : x ∈ w.letters) : x ∈ a.alphabet := by
  obtain ⟨ts, hwalk, hword⟩ := mem_run.mp hp
  rw [← hword] at hx
  obtain ⟨t, ht, rfl⟩ := List.mem_map.mp (Word.mem_letters.mp hx).1
  exact a.valid.symbol_mem t (hwalk.mem_transitions ht)

theorem hasFinal_iff : a.hasFinal s = true ↔ ∃ q, q ∈ s ∧ q ∈ a.finals := SortedSet.intersects_iff

/-- An automaton accepts a word exactly if a walk from its start state to a final state reads it,
where neither the word's `ε`s nor those on the way count. -/
theorem accepts_iff_walk (a : Automaton) (w : Word) : a.accepts w = true ↔ a.Accepts w := by
  rw [accepts, hasFinal_iff]
  refine ⟨fun h => ?_, fun h => ?_⟩
  · obtain ⟨q, hq, hfinal⟩ := h
    obtain ⟨ts, hwalk, hword⟩ := mem_run.mp hq
    exact ⟨ts, q, hwalk, hfinal, hword⟩
  · obtain ⟨ts, q, hwalk, hfinal, hword⟩ := h
    exact ⟨q, mem_run.mpr ⟨ts, hwalk, hword⟩, hfinal⟩

end Automaton
end FormalLanguage
