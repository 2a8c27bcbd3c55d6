import FormalLanguage.Proofs.Automaton.Deterministic
import FormalLanguage.Proofs.Description.Accepted
import FormalLanguage.Proofs.Description.Braces

/-! Descriptions of determinized automata.

Determinizing makes new names, with commas and blanks in them, which are read back if
the old names were sturdy: `WellNamed` is kept by determinizing, and makes whatever
comes of an automaton readable (`parse_print_descendant`). The names of an automaton
that was read need not be sturdy, since a name may close a brace that it has not
opened. Merging such a name can bring a blank out of the braces, and nothing else can
(`exposed_of_parse`). -/
namespace FormalLanguage
open Text Description

namespace Automaton

variable {a d d' : Automaton} {q : State} {x : Symbol}

/-! ### What the result is made of -/

theorem exists_run_of_mem_states (h : a.determinize = .ok d) (hq : q ∈ d.states) :
    ∃ w, (∃ p, p ∈ a.run w) ∧ q = State.merge (a.run w) := by
  have hd := subsetAutomaton_of_determinize h
  obtain ⟨w, _, hsome, rfl⟩ := (hd.mem_states_iff (onlyMentioned_of_determinize h)).mp hq
  exact ⟨w, hsome, rfl⟩

theorem mem_alphabet_of_determinize (h : a.determinize = .ok d) (hx : x ∈ d.alphabet) :
    x ∈ a.alphabet := by
  have hd := subsetAutomaton_of_determinize h
  obtain ⟨t, ht, rfl⟩ := hd.mem_alphabet.mp hx
  obtain ⟨s, _, x, next, hedge, rfl⟩ := hd.mem_transitions.mp ht
  exact (mem_letters.mp (mem_setEdges.mp hedge).1).1

/-! ### Automata with sturdy names -/

/-- Symbols that can stand between quotes, and names that can be merged. -/
structure WellNamed (a : Automaton) : Prop where
  symbols : ∀ x ∈ a.alphabet, '"' ∉ x.chars ∧ '\n' ∉ x.chars
  names : ∀ q ∈ a.states, Sturdy q.chars

instance (a : Automaton) : Decidable a.WellNamed :=
  decidable_of_iff ((∀ x ∈ a.alphabet.toList, '"' ∉ x.chars ∧ '\n' ∉ x.chars) ∧
      ∀ q ∈ a.states.toList, Sturdy q.chars)
    ⟨fun ⟨hsymbols, hnames⟩ => ⟨hsymbols, hnames⟩, fun h => ⟨h.symbols, h.names⟩⟩

theorem WellNamed.determinize (ha : a.WellNamed) (h : a.determinize = .ok d) : d.WellNamed := by
  refine ⟨fun x hx => ha.symbols x (mem_alphabet_of_determinize h hx), fun q hq => ?_⟩
  obtain ⟨w, ⟨p, hp⟩, rfl⟩ := exists_run_of_mem_states h hq
  exact Sturdy.merge hp fun p hp => ha.names p (mem_states_of_mem_run hp)

theorem WellNamed.parse_print_of_determinize (hd : d.WellNamed) (h : a.determinize = .ok d) :
    Automaton.parse d.print = .ok d := by
  have hprintable : d.Printable := {
    alphabet := fun _ => (subsetAutomaton_of_determinize h).mem_alphabet
    symbols := hd.symbols
    names := fun q hq => (hd.names q hq).unbroken
    unmarked := fun q hq _ _ => ⟨(hd.names q hq).noArrow, (hd.names q hq).noStar⟩ }
  exact hprintable.recoverable.parse_eq

/-- What comes of an automaton by determinizing it, and then by determinizing it again and by
writing and reading it, in any order and any number of times. -/
inductive Descendant (a : Automaton) : Automaton → Prop where
  | determinized {d : Automaton} (h : a.determinize = .ok d) : Descendant a d
  | again {d d' : Automaton} (hd : Descendant a d) (h : d.determinize = .ok d') : Descendant a d'
  | reread {d d' : Automaton} (hd : Descendant a d) (h : Automaton.parse d.print = .ok d') :
      Descendant a d'

/-- Reading gives back what was written, so all descendants come from determinizing. -/
theorem WellNamed.exists_determinize (ha : a.WellNamed) (hd : a.Descendant d) :
    ∃ b : Automaton, b.WellNamed ∧ b.determinize = .ok d := by
  induction hd with
  | determinized h => exact ⟨a, ha, h⟩
  | again _ h ih =>
    obtain ⟨b, hb, hbd⟩ := ih
    exact ⟨_, hb.determinize hbd, h⟩
  | reread _ h ih =>
    obtain ⟨b, hb, hbd⟩ := ih
    rw [(hb.determinize hbd).parse_print_of_determinize hbd] at h
    obtain rfl := Except.ok.inj h
    exact ⟨b, hb, hbd⟩

/-- Whatever comes of an automaton with sturdy names is read back from its description. -/
theorem parse_print_descendant (ha : a.WellNamed) (hd : a.Descendant d) :
    Automaton.parse d.print = .ok d := by
  obtain ⟨b, hb, hbd⟩ := ha.exists_determinize hd
  exact (hb.determinize hbd).parse_print_of_determinize hbd

end Automaton

/-- A name that was merged before, next to one that was not. -/
def nested : Automaton where
  alphabet := .ofList [.epsilon, .ofChars ['a'], .ofChars [',']]
  states := .ofList [.ofChars ['p'], .ofChars ['{', 'q', ',', ' ', 'r', '}'], .ofChars ['s']]
  finals := .ofList [.ofChars ['{', 'q', ',', ' ', 'r', '}']]
  start := .ofChars ['p']
  transitions := .ofList [
    ⟨.ofChars ['p'], .epsilon, .ofChars ['{', 'q', ',', ' ', 'r', '}']⟩,
    ⟨.ofChars ['{', 'q', ',', ' ', 'r', '}'], .ofChars ['a'], .ofChars ['p']⟩,
    ⟨.ofChars ['{', 'q', ',', ' ', 'r', '}'], .ofChars ['a'], .ofChars ['s']⟩,
    ⟨.ofChars ['s'], .ofChars [','], .ofChars ['s']⟩]
  valid := Automaton.Components.defect?_eq_none_iff.mp (by decide)

theorem nested_parse_print : nested.WellNamed ∧ ∃ d d', nested.determinize = .ok d ∧
    Automaton.parse d.print = .ok d' ∧ d'.determinize = .ok d' ∧
      Automaton.parse d'.print = .ok d' := by
  have hnested : nested.WellNamed := by decide
  obtain ⟨d, h⟩ : ∃ d, nested.determinize = .ok d := exists_of_isOk (by decide)
  have hread := Automaton.parse_print_descendant hnested (.determinized h)
  have hagain := Automaton.determinize_determinized h
  have hdescendant : nested.Descendant d := .again (.reread (.determinized h) hread) hagain
  exact ⟨hnested, d, d, h, hread, hagain, Automaton.parse_print_descendant hnested hdescendant⟩

/-! ### Blanks outside of braces -/

namespace Description

/-- A blank outside of braces comes from merging a name that closes a brace that is not its own. -/
theorem exists_not_closesOwn {s : StateSet} {q : State} {u v : List Char} {c : Char} (hq : q ∈ s)
    (hnames : ∀ p ∈ s, Legible p.chars) (hsplit : (State.merge s).chars = u ++ c :: v)
    (hdepth : depthAfter u = 0) (hblank : isBlank c = true) :
    (∃ p p', p ∈ s ∧ p' ∈ s ∧ p ≠ p') ∧ ∃ p ∈ s, ¬ ClosesOwn p.chars := by
  rcases merge_cases hq with rfl | ⟨hseveral, hchars⟩
  · have hlegible := hnames q (SortedSet.mem_singleton.mpr rfl)
    have hplain := (clear_top_iff hlegible.unquoted).mp hlegible.unparted u c v hsplit hdepth
    rw [hplain] at hblank
    cases hblank
  · refine ⟨hseveral, ?_⟩
    by_contra hnone
    have hown : ∀ name ∈ s.toList.map (·.chars), ClosesOwn name := by
      intro name hname
      obtain ⟨p, hp, rfl⟩ := List.mem_map.mp hname
      by_contra hp'
      exact hnone ⟨p, hp, hp'⟩
    obtain rfl := eq_open_of_braced hown (hchars.symm.trans hsplit) hdepth
    exact absurd hblank (by decide)

theorem merge_unquoted {s : StateSet} {q : State} (hq : q ∈ s) (h : ∀ p ∈ s, Legible p.chars) :
    (State.merge s).chars ≠ [] ∧ '"' ∉ (State.merge s).chars := by
  refine merge_induction (P := fun name => name ≠ [] ∧ '"' ∉ name) hq
    (fun p hp => ⟨(h p hp).nonempty, (h p hp).unquoted⟩) fun names hnames => ?_
  exact ⟨List.cons_ne_nil _ _, notMem_braced (by decide) fun name hname => (hnames name hname).2⟩

end Description

namespace Automaton

variable {a d : Automaton}

/-- Determinizing any number of times is determinizing once, or not at all. -/
theorem determinize_of_reflTransGen
    (h : Relation.ReflTransGen (fun a d : Automaton => a.determinize = .ok d) a d) :
    d = a ∨ a.determinize = .ok d := by
  induction h with
  | refl => exact .inl rfl
  | tail _ hnext ih =>
    rcases ih with rfl | ih
    · exact .inr hnext
    · rw [determinize_determinized ih] at hnext
      exact .inr (Except.ok.inj hnext ▸ ih)

/-- In an automaton that was read, and in what becomes of it by determinizing, no symbol has a
quote, and no name is empty or has a quote. A name with a blank outside of braces was merged from
several, one of which closes a brace that it has not opened. -/
theorem exposed_of_parse {s : List Char} (hread : Automaton.parse s = .ok a)
    (hd : Relation.ReflTransGen (fun a d : Automaton => a.determinize = .ok d) a d) :
    (∀ x ∈ d.alphabet, '"' ∉ x.chars) ∧ (∀ q ∈ d.states, q.chars ≠ [] ∧ '"' ∉ q.chars) ∧
      ∀ q ∈ d.states, ∀ u c v, q.chars = u ++ c :: v → depthAfter u = 0 → isBlank c = true →
        ∃ w, q = State.merge (a.run w) ∧ (∃ p p', p ∈ a.run w ∧ p' ∈ a.run w ∧ p ≠ p') ∧
          ∃ p ∈ a.run w, ¬ ClosesOwn p.chars := by
  have ha := described_of_parse hread
  have hsymbols : ∀ x ∈ a.alphabet, '"' ∉ x.chars := by
    intro x hx
    obtain ⟨t, ht, rfl⟩ := (ha.alphabet x).mp hx
    exact (ha.symbols t ht).1
  have hlegible : ∀ w, ∀ p ∈ a.run w, Legible p.chars := fun w p hp =>
    (ha.names p (mem_states_of_mem_run hp)).1
  rcases determinize_of_reflTransGen hd with rfl | h
  · refine ⟨hsymbols, fun q hq => ?_, fun q hq u c v hsplit hdepth hblank => ?_⟩
    · exact ⟨(ha.names q hq).1.nonempty, (ha.names q hq).1.unquoted⟩
    · obtain ⟨hname, _⟩ := ha.names q hq
      rw [(clear_top_iff hname.unquoted).mp hname.unparted u c v hsplit hdepth] at hblank
      cases hblank
  · refine ⟨fun x hx => hsymbols x (mem_alphabet_of_determinize h hx), fun q hq => ?_,
      fun q hq u c v hsplit hdepth hblank => ?_⟩
    · obtain ⟨w, ⟨p, hp⟩, rfl⟩ := exists_run_of_mem_states h hq
      exact merge_unquoted hp (hlegible w)
    · obtain ⟨w, ⟨p, hp⟩, rfl⟩ := exists_run_of_mem_states h hq
      exact ⟨w, rfl, exists_not_closesOwn hp (hlegible w) hsplit hdepth hblank⟩

end Automaton

/-- A name that closes a brace which it has not opened. -/
def breached : Automaton where
  alphabet := .ofList [.epsilon]
  states := .ofList [.ofChars ['a', '}', 'b'], .ofChars ['c']]
  finals := .ofList [.ofChars ['c']]
  start := .ofChars ['a', '}', 'b']
  transitions := .ofList [⟨.ofChars ['a', '}', 'b'], .epsilon, .ofChars ['c']⟩]
  valid := Automaton.Components.defect?_eq_none_iff.mp (by decide)

def breachedText : List Char := ['-', '>', ' ', 'a', '}', 'b', ' ', ':', ' ', '"', '"', ' ', '-',
  '>', ' ', 'c', '\n', ' ', '*', ' ', 'c']

/-- The only state of the result. -/
def breachedMerged : Automaton where
  alphabet := .ofList []
  states := .ofList [.ofChars ['{', 'a', '}', 'b', ',', ' ', 'c', '}']]
  finals := .ofList [.ofChars ['{', 'a', '}', 'b', ',', ' ', 'c', '}']]
  start := .ofChars ['{', 'a', '}', 'b', ',', ' ', 'c', '}']
  transitions := .ofList []
  valid := Automaton.Components.defect?_eq_none_iff.mp (by decide)

theorem breached_determinize : Automaton.parse breachedText = .ok breached ∧
    breached.determinize = .ok breachedMerged := by
  decide

theorem breached_exposed : Automaton.parse breachedText = .ok breached ∧
    breached.determinize = .ok breachedMerged ∧
    ∃ w, breachedMerged.start = State.merge (breached.run w) ∧
      (∃ p p', p ∈ breached.run w ∧ p' ∈ breached.run w ∧ p ≠ p') ∧
      ∃ p ∈ breached.run w, ¬ ClosesOwn p.chars := by
  obtain ⟨hread, h⟩ := breached_determinize
  have hdepth : depthAfter ['{', 'a', '}', 'b', ','] = 0 := by decide
  exact ⟨hread, h, (Automaton.exposed_of_parse hread (.single h)).2.2 _
    breachedMerged.valid.start_mem ['{', 'a', '}', 'b', ','] ' ' ['c', '}'] rfl hdepth (by decide)⟩

/-- The brace around the members is closed by one of them, and the blank behind it counts. -/
theorem breached_blank : Automaton.parse breachedText = .ok breached ∧
    breached.determinize = .ok breachedMerged ∧ (∃ q ∈ breachedMerged.states, ∃ u v,
      q.chars = u ++ ' ' :: v ∧ depthAfter u = 0) ∧
    Automaton.parse breachedMerged.print = .error (.atLine 1 (.invalidName
      ['{', 'a', '}', 'b', ',', ' ', 'c', '}'])) := by
  obtain ⟨hread, h⟩ := breached_determinize
  have hsplit : breachedMerged.start.chars = ['{', 'a', '}', 'b', ','] ++ ' ' :: ['c', '}'] := rfl
  exact ⟨hread, h, ⟨_, breachedMerged.valid.start_mem, _, _, hsplit, by decide⟩, by decide⟩

end FormalLanguage
