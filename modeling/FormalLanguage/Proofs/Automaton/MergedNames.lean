import FormalLanguage.Proofs.Automaton.Validation
import FormalLanguage.Proofs.Description.Braces

/-! Which sets of states are merged into one name.

Names are listed with a comma between one and the next, so a list of names is read
off its text from left to right as long as no name goes on behind a comma where
another one ends (`Apart`). Names without a comma are apart, and so are names that
close all braces they open and have their commas inside of them (`Undivided`): where
one of those ends no brace is open.

Then two sets are merged into one name only if one of them is a single state that
has the name of the other for its own (`merge_eq_iff`), and when determinization
fails because of a name, that name is the name of a state (`merge_unambiguous`). -/
namespace FormalLanguage
open Description

namespace State

variable {l m : List (List Char)} {name name' u v : List Char} {s t : StateSet} {q p : State}

/-! ### Lists of names -/

/-- No name goes on with a comma where another name ends, or where it ends itself. -/
def Apart (names : List (List Char)) : Prop :=
  ∀ name ∈ names, ∀ name' ∈ names, ¬ name ++ [','] <+: name'

theorem Apart.subset (h : Apart m) (hl : l ⊆ m) : Apart l :=
  fun name hname name' hname' => h name (hl hname) name' (hl hname')

theorem concat_prefix_intercalate (name name' : List Char) (l : List (List Char)) :
    name ++ [','] <+: List.intercalate [',', ' '] (name :: name' :: l) := by
  rw [List.intercalate_cons_cons, List.append_assoc]
  exact (List.prefix_append_right_inj name).mpr (List.prefix_append [','] _)

/-- Where commas follow two names, the names end at the same comma. -/
theorem eq_of_append_comma (hname : ¬ name ++ [','] <+: name') (hname' : ¬ name' ++ [','] <+: name)
    (h : name ++ ',' :: u = name' ++ ',' :: v) : name = name' ∧ u = v := by
  rcases List.append_eq_append_iff.mp h with ⟨w, rfl, hw⟩ | ⟨w, rfl, hw⟩
  · cases w with
    | nil => simpa using hw
    | cons c w =>
      obtain ⟨rfl, _⟩ := List.cons.inj hw
      exact absurd ⟨w, by simp⟩ hname
  · cases w with
    | nil => simpa [eq_comm] using hw
    | cons c w =>
      obtain ⟨rfl, _⟩ := List.cons.inj hw
      exact absurd ⟨w, by simp⟩ hname'

/-- Names that are apart are told from their list. -/
theorem intercalate_injective (h : Apart (l ++ m)) (hl : l ≠ []) (hm : m ≠ [])
    (heq : List.intercalate [',', ' '] l = List.intercalate [',', ' '] m) : l = m := by
  induction l generalizing m with
  | nil => exact absurd rfl hl
  | cons name l ih =>
    cases m with
    | nil => exact absurd rfl hm
    | cons name' m =>
      have hname : name ∈ name :: l ++ name' :: m := by simp
      have hname' : name' ∈ name :: l ++ name' :: m := by simp
      cases l with
      | nil =>
        cases m with
        | nil => simpa using heq
        | cons next' m =>
          have hbegins := concat_prefix_intercalate name' next' m
          rw [← heq, List.intercalate_singleton] at hbegins
          exact absurd hbegins (h name' hname' name hname)
      | cons next l =>
        cases m with
        | nil =>
          have hbegins := concat_prefix_intercalate name next l
          rw [heq, List.intercalate_singleton] at hbegins
          exact absurd hbegins (h name hname name' hname')
        | cons next' m =>
          rw [List.intercalate_cons_cons, List.intercalate_cons_cons, List.append_assoc,
            List.append_assoc] at heq
          obtain ⟨rfl, hrest⟩ := eq_of_append_comma (h name hname name' hname')
            (h name' hname' name hname) heq
          have hapart : Apart (next :: l ++ next' :: m) := h.subset fun c hc => by
            rcases List.mem_append.mp hc with hc | hc
            · exact List.mem_append_left _ (List.mem_cons_of_mem _ hc)
            · exact List.mem_append_right _ (List.mem_cons_of_mem _ hc)
          rw [ih hapart (List.cons_ne_nil _ _) (List.cons_ne_nil _ _) (List.cons.inj hrest).2]

/-! ### Names that are apart -/

theorem apart_of_comma_notMem (h : ∀ name ∈ l, ',' ∉ name) : Apart l :=
  fun _ _ name' hname' hbegins => h name' hname' (hbegins.subset (by simp))

/-- A name that closes the braces it opens, and no others, with its commas inside of braces. -/
structure Undivided (name : List Char) : Prop where
  balanced : Balanced name
  enclosed : ∀ u, u ++ [','] <+: name → depthAfter u ≠ 0

instance (name : List Char) : Decidable (Undivided name) :=
  decidable_of_iff (Balanced name ∧ ∀ u ∈ name.inits, u ++ [','] <+: name → depthAfter u ≠ 0) <| by
    refine ⟨fun ⟨hbalanced, h⟩ => ⟨hbalanced, fun u hu => h u ?_ hu⟩,
      fun ⟨hbalanced, h⟩ => ⟨hbalanced, fun u _ => h u⟩⟩
    exact (List.mem_inits u name).mpr ((List.prefix_append u _).trans hu)

theorem apart_of_undivided (h : ∀ name ∈ l, Undivided name) : Apart l :=
  fun name hname name' hname' hbegins =>
    (h name' hname').enclosed name hbegins (h name hname).balanced.depthAfter_eq

/-! ### Merged names -/

theorem chars_injective : Function.Injective fun q : State => q.chars :=
  fun _ _ h => toLabel_injective (Label.chars_injective h)

theorem braced_injective (h : Apart (l ++ m)) (hl : l ≠ []) (hm : m ≠ [])
    (heq : braced l = braced m) : l = m :=
  intercalate_injective h hl hm (List.append_cancel_right (List.cons.inj heq).2)

/-- A set is merged into its only state, or into the list of the names of several. -/
theorem merge_eq_or (hq : q ∈ s) : s = {State.merge s} ∨
    2 ≤ s.size ∧ (State.merge s).chars = braced (s.toList.map (·.chars)) := by
  rcases merge_cases hq with rfl | ⟨⟨p, p', hp, hp', hne⟩, hchars⟩
  · exact .inl rfl
  · exact .inr ⟨Nat.lt_of_not_le fun h => hne (SortedSet.eq_of_size_le_one h hp hp'), hchars⟩

theorem comma_mem_merge (h : 2 ≤ s.size) : ',' ∈ (State.merge s).chars := by
  obtain ⟨states, hstates⟩ := s
  match states, hstates, h with
  | p :: p' :: rest, _, _ =>
    have hbegins := concat_prefix_intercalate p.chars p'.chars (rest.map (·.chars))
    exact List.mem_append_left _ (List.mem_cons_of_mem _ (hbegins.subset (by simp)))

/-- The first set is one state that has the name of the second one, which has several. -/
def NamedLike (s t : StateSet) : Prop := s = {State.merge t} ∧ 2 ≤ t.size

theorem NamedLike.merge_eq (h : NamedLike s t) : State.merge s = State.merge t := by
  rw [h.1]
  rfl

theorem NamedLike.merge_mem (h : NamedLike s t) : State.merge t ∈ s := by
  rw [h.1]
  exact SortedSet.mem_singleton.mpr rfl

theorem forall_mem_names {P : List Char → Prop} (h : ∀ q, q ∈ s ∨ q ∈ t → P q.chars) :
    ∀ name ∈ s.toList.map (·.chars) ++ t.toList.map (·.chars), P name := by
  intro name hname
  rw [← List.map_append] at hname
  obtain ⟨q, hq, rfl⟩ := List.mem_map.mp hname
  exact h q (List.mem_append.mp hq)

/-- If the names of all members are apart, two sets have one merged name only if one of them is a
state with the name of the other. -/
theorem merge_eq_iff (hq : q ∈ s) (hp : p ∈ t) (hne : s ≠ t)
    (h : Apart (s.toList.map (·.chars) ++ t.toList.map (·.chars))) :
    State.merge s = State.merge t ↔ NamedLike s t ∨ NamedLike t s := by
  refine ⟨fun hname => ?_, fun hlike => hlike.elim NamedLike.merge_eq fun h => h.merge_eq.symm⟩
  rcases merge_eq_or hq with hs | ⟨hs, hchars⟩
  · rcases merge_eq_or hp with ht | ⟨ht, _⟩
    · exact absurd (hs.trans (hname ▸ ht.symm)) hne
    · exact .inl ⟨hname ▸ hs, ht⟩
  · rcases merge_eq_or hp with ht | ⟨ht, hchars'⟩
    · exact .inr ⟨hname.symm ▸ ht, hs⟩
    · rw [hname, hchars'] at hchars
      have hnames := braced_injective h (by simpa using List.ne_nil_of_mem hq)
        (by simpa using List.ne_nil_of_mem hp) hchars.symm
      exact absurd (SortedSet.toList_injective (chars_injective.list_map hnames)) hne

end State

open State

namespace Automaton

variable {a : Automaton} {s t : StateSet} {q m : State}

/-! ### Determinization -/

theorem sharedName_of_determinize (h : a.determinize = .error (.ambiguousMerge m)) :
    a.SharedName m := by
  cases hshared : sharedName? a.accessibleSets with
  | some q =>
    rw [determinize_of_shared hshared] at h
    obtain rfl := AutomatonError.ambiguousMerge.inj (Except.error.inj h)
    exact sharedName_of_sharedName? hshared
  | none =>
    rw [determinize, hshared] at h
    cases (ofTransitions_eq_error_iff.mp h).2

theorem Accessible.mem_states (hs : a.Accessible s) (hq : q ∈ s) : q ∈ a.states := by
  obtain ⟨_, w, rfl⟩ := hs
  exact mem_states_of_mem_run hq

/-- Where the names of the states are apart, a shared name is the name of a state. -/
theorem SharedName.mem_states (h : a.SharedName m) (ha : Apart (a.states.toList.map (·.chars))) :
    m ∈ a.states ∧ ',' ∈ m.chars := by
  obtain ⟨s, t, hs, ht, hne, hsname, htname⟩ := h
  obtain ⟨q, hq⟩ := hs.1
  obtain ⟨p, hp⟩ := ht.1
  have hapart : Apart (s.toList.map (·.chars) ++ t.toList.map (·.chars)) := by
    refine ha.subset (forall_mem_names fun r hr => ?_)
    exact List.mem_map_of_mem (hr.elim hs.mem_states ht.mem_states)
  rcases (merge_eq_iff hq hp hne hapart).mp (hsname.trans htname.symm) with hlike | hlike
  · rw [← htname]
    exact ⟨hs.mem_states hlike.merge_mem, comma_mem_merge hlike.2⟩
  · rw [← hsname]
    exact ⟨ht.mem_states hlike.merge_mem, comma_mem_merge hlike.2⟩

/-- Two sets of states with undivided names are merged into one name exactly if one of them is a
state that has the name of the other, and no two sets are if no name has a comma. So
determinization fails because of a name only if this is the name of a state, and has a comma. -/
theorem merge_unambiguous :
    (∀ s t : StateSet, (∃ q, q ∈ s) → (∃ q, q ∈ t) → s ≠ t →
      ((∀ q, q ∈ s ∨ q ∈ t → Undivided q.chars) →
        (State.merge s = State.merge t ↔ NamedLike s t ∨ NamedLike t s)) ∧
      ((∀ q, q ∈ s ∨ q ∈ t → ',' ∉ q.chars) → State.merge s ≠ State.merge t)) ∧
    ∀ (a : Automaton) (m : State),
      ((∀ q ∈ a.states, Undivided q.chars) → a.determinize = .error (.ambiguousMerge m) →
        m ∈ a.states ∧ ',' ∈ m.chars) ∧
      ((∀ q ∈ a.states, ',' ∉ q.chars) → a.determinize ≠ .error (.ambiguousMerge m)) := by
  refine ⟨fun s t ⟨q, hq⟩ ⟨p, hp⟩ hne => ⟨fun h => ?_, fun h hname => ?_⟩, fun a m =>
    ⟨fun h herror => ?_, fun h herror => ?_⟩⟩
  · exact merge_eq_iff hq hp hne (apart_of_undivided (forall_mem_names h))
  · have hapart := apart_of_comma_notMem (forall_mem_names h)
    rcases (merge_eq_iff hq hp hne hapart).mp hname with hlike | hlike
    · exact h _ (.inl hlike.merge_mem) (comma_mem_merge hlike.2)
    · exact h _ (.inr hlike.merge_mem) (comma_mem_merge hlike.2)
  · exact (sharedName_of_determinize herror).mem_states
      (apart_of_undivided (List.forall_mem_map.mpr h))
  · obtain ⟨hm, hcomma⟩ := (sharedName_of_determinize herror).mem_states
      (apart_of_comma_notMem (List.forall_mem_map.mpr h))
    exact h m hm hcomma

/-- A state that has the name of two others when they are merged. -/
def namesake : State := .ofChars ['{', 'p', ',', ' ', 'q', '}']

def homonymous : Automaton where
  alphabet := .ofList [.ofChars ['a'], .ofChars ['b']]
  states := .ofList [.ofChars ['p'], .ofChars ['q'], namesake]
  finals := .ofList [.ofChars ['q']]
  start := .ofChars ['p']
  transitions := .ofList [⟨.ofChars ['p'], .ofChars ['a'], .ofChars ['p']⟩,
    ⟨.ofChars ['p'], .ofChars ['a'], .ofChars ['q']⟩, ⟨.ofChars ['p'], .ofChars ['b'], namesake⟩]
  valid := Automaton.Components.defect?_eq_none_iff.mp (by decide)

theorem homonymous_ambiguous :
    ((∀ q ∈ homonymous.states.toList, Undivided q.chars) ∧
      homonymous.determinize = .error (.ambiguousMerge namesake) ∧
      namesake ∈ homonymous.states ∧ ',' ∈ namesake.chars) ∧
    (NamedLike {namesake} (.ofList [.ofChars ['p'], .ofChars ['q']]) ∨
      NamedLike (.ofList [.ofChars ['p'], .ofChars ['q']]) {namesake}) ∧
    State.merge {.ofChars ['p']} ≠ State.merge (.ofList [.ofChars ['p'], .ofChars ['q']]) := by
  obtain ⟨hsets, hautomata⟩ := merge_unambiguous
  have hnames : ∀ q ∈ homonymous.states.toList, Undivided q.chars := by decide
  have herror : homonymous.determinize = .error (.ambiguousMerge namesake) := by decide
  refine ⟨⟨hnames, herror, (hautomata homonymous namesake).1 hnames herror⟩, ?_, ?_⟩
  · have hpair : ∀ q ∈ [namesake, .ofChars ['p'], .ofChars ['q']], Undivided q.chars := by decide
    refine ((hsets {namesake} (.ofList [.ofChars ['p'], .ofChars ['q']]) ⟨namesake, by decide⟩
      ⟨.ofChars ['p'], by decide⟩ (by decide)).1 fun q hq => hpair q ?_).mp (by decide)
    simpa using hq
  · have hpair : ∀ q ∈ [State.ofChars ['p'], .ofChars ['q']], ',' ∉ q.chars := by decide
    refine (hsets {.ofChars ['p']} (.ofList [.ofChars ['p'], .ofChars ['q']])
      ⟨.ofChars ['p'], by decide⟩ ⟨.ofChars ['p'], by decide⟩ (by decide)).2 fun q hq => hpair q ?_
    simpa using hq

end Automaton
end FormalLanguage
