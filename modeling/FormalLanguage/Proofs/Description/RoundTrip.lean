import FormalLanguage.Description.Writer
import FormalLanguage.Proofs.Description.Reader
import FormalLanguage.Proofs.SortedSet

/-! Reading back what was written.

The notation has no escapes, so not every automaton has a description. `Printable`
says which ones do, judged name by name: symbols without quotes, unbroken names, and
no marker at the beginning of a name that stands on its line without one.
`Recoverable` asks of a name only what the places ask where it is written: a comma
hurts a target, a colon a name at the beginning of a line, and an open brace
whatever follows it. The reader goes through the lines of such a description with
the invariant `Draft.Holds`, which says that the draft knows the lines read so far
and nothing else, and so ends with the automaton that was written
(`Recoverable.parse_eq`). A printable automaton is recoverable, so this is its case
too (`parse_print`). -/
namespace FormalLanguage
open Text Description

variable {a : Automaton} {q p : State} {t : Transition} {ts : List Transition}

/-- What an automaton owes to be read back from its description. -/
structure Automaton.Printable (a : Automaton) : Prop where
  alphabet : ∀ x, x ∈ a.alphabet ↔ ∃ t ∈ a.transitions, t.symbol = x
  symbols : ∀ x ∈ a.alphabet, '"' ∉ x.chars ∧ '\n' ∉ x.chars
  names : ∀ q ∈ a.states, Unbroken q.chars
  unmarked : ∀ q ∈ a.states, q ≠ a.start → q ∉ a.finals →
    ¬ ['-', '>'] <+: q.chars ∧ ¬ ['*'] <+: q.chars

theorem Automaton.printable_iff : a.Printable ↔ a.alphabet = a.transitions.image (·.symbol) ∧
    (∀ x ∈ a.alphabet.toList, '"' ∉ x.chars ∧ '\n' ∉ x.chars) ∧
    (∀ q ∈ a.states.toList, Unbroken q.chars) ∧
    ∀ q ∈ a.states.toList, q ≠ a.start → q ∉ a.finals →
      ¬ ['-', '>'] <+: q.chars ∧ ¬ ['*'] <+: q.chars := by
  have halphabet : a.alphabet = a.transitions.image (·.symbol) ↔
      ∀ x, x ∈ a.alphabet ↔ ∃ t ∈ a.transitions, t.symbol = x := by
    simp [SortedSet.ext_iff]
  rw [halphabet]
  exact ⟨fun h => ⟨h.alphabet, h.symbols, h.names, h.unmarked⟩,
    fun ⟨hmentioned, hsymbols, hnames, hunmarked⟩ => ⟨hmentioned, hsymbols, hnames, hunmarked⟩⟩

instance (a : Automaton) : Decidable a.Printable := decidable_of_iff' _ Automaton.printable_iff

/-- What the lines of an automaton owe to be read back one by one. Only the last transition on a
line may leave a brace open. -/
structure Automaton.Recoverable (a : Automaton) : Prop where
  alphabet : ∀ x, x ∈ a.alphabet ↔ ∃ t ∈ a.transitions, t.symbol = x
  symbols : ∀ t ∈ a.transitions, '"' ∉ t.symbol.chars ∧ '\n' ∉ t.symbol.chars
  names : ∀ q ∈ a.states, Legible q.chars ∧ '\n' ∉ q.chars ∧ Clear (· = ':') .top q.chars
  sources : ∀ t ∈ a.transitions, depthAfter t.source.chars = 0
  targets : ∀ t ∈ a.transitions, Clear (· = ',') .top t.target.chars
  shut : ∀ t ∈ a.transitions, ∀ t' ∈ a.transitions, t.source = t'.source → compare t t' = .lt →
    depthAfter t.target.chars = 0
  unmarked : ∀ q ∈ a.states, q ≠ a.start → q ∉ a.finals →
    ¬ ['-', '>'] <+: q.chars ∧ ¬ ['*'] <+: q.chars

theorem Automaton.Printable.recoverable (h : a.Printable) : a.Recoverable where
  alphabet := h.alphabet
  symbols t ht := h.symbols t.symbol (a.valid.symbol_mem t ht)
  names q hq := ⟨(h.names q hq).legible, (h.names q hq).oneLine, (h.names q hq).passes_colon.clear⟩
  sources t ht := (h.names t.source (a.valid.source_mem t ht)).closed
  targets t ht := (h.names t.target (a.valid.target_mem t ht)).passes_comma.clear
  shut t ht _ _ _ _ := (h.names t.target (a.valid.target_mem t ht)).closed
  unmarked := h.unmarked

namespace Description

/-! ### Written definitions -/

theorem written_plain (role : Role) : Plain (· = ':') role.written ∧ '\n' ∉ role.written := by
  obtain ⟨start, final⟩ := role
  cases start <;> cases final <;> decide

/-- Every role but the plain one is written as its marker and a blank. -/
theorem exists_marker {role : Role} (hrole : role ≠ ⟨false, false⟩) :
    ∃ u marker, Blank u ∧ (marker, role) ∈ markers ∧ role.written = u ++ marker ++ [' '] := by
  obtain ⟨start, final⟩ := role
  cases start <;> cases final
  · exact absurd rfl hrole
  · exact ⟨[' '], ['*'], by decide⟩
  · exact ⟨[], ['-', '>'], by decide⟩
  · exact ⟨[], ['-', '>', '*'], by decide⟩

theorem readDefinition_written {role : Role} {v : List Char} (hq : Legible q.chars) (hv : Blank v)
    (hplain : role = ⟨false, false⟩ → ¬ ['-', '>'] <+: q.chars ∧ ¬ ['*'] <+: q.chars) :
    readDefinition (role.written ++ q.chars ++ v) = .ok (role, q) := by
  have hspace : Blank [' '] := by decide
  by_cases hrole : role = ⟨false, false⟩
  · obtain ⟨harrow, hstar⟩ := hplain hrole
    have hblank : Blank role.written := by
      rw [hrole]
      decide
    rw [readDefinition_bare hblank hq hv harrow hstar, hrole]
  · obtain ⟨u, marker, hu, hmarker, hwritten⟩ := exists_marker hrole
    have hdefinition := readDefinition_marked hmarker hu hspace (List.cons_ne_nil _ _) hq hv
    rw [hwritten]
    simpa using hdefinition

/-! ### Written transitions -/

theorem writeMove_eq (t : Transition) :
    ' ' :: writeMove t = [' '] ++ ('"' :: ([] ++ t.symbol.chars ++ []) ++
      '"' :: ([' '] ++ '-' :: '>' :: ([' '] ++ t.target.chars))) ++ [] := by
  simp [writeMove]

theorem readMove_writeMove (hx : '"' ∉ t.symbol.chars) (hp : Legible t.target.chars) :
    readMove (' ' :: writeMove t) = .ok (t.symbol, t.target) := by
  have hspace : Blank [' '] := by decide
  rw [writeMove_eq]
  exact readMove_between hspace .nil .nil hspace hspace .nil hx hp

/-- What stands before the target of a written transition is passed over. -/
theorem exists_passes_writeMove (hx : '"' ∉ t.symbol.chars) :
    ∃ u, Passes (· = ',') u ∧ ' ' :: writeMove t = u ++ t.target.chars := by
  have hspace : Plain (· = ',') [' '] := by decide
  have harrow : Plain (· = ',') [' ', '-', '>', ' '] := by decide
  refine ⟨_, (hspace.passes.append (passes_quoted hx rfl)).append harrow.passes, ?_⟩
  simp [writeMove]

/-- The blank after a comma belongs to the next segment. -/
theorem cons_intercalate {segments : List (List Char)} (hne : segments ≠ []) :
    ' ' :: List.intercalate [',', ' '] segments =
      List.intercalate [','] (segments.map (' ' :: ·)) := by
  induction segments with
  | nil => exact absurd rfl hne
  | cons s segments ih =>
    cases segments with
    | nil => simp
    | cons s' segments =>
      have hrest := ih (List.cons_ne_nil _ _)
      rw [List.intercalate_cons_cons, List.map_cons, List.map_cons, List.intercalate_cons_cons,
        ← List.map_cons (f := (' ' :: ·)), ← hrest]
      simp

theorem readMoves_writeMoves (hne : ts ≠ []) (hts : ∀ t ∈ ts, '"' ∉ t.symbol.chars ∧
      Legible t.target.chars ∧ Clear (· = ',') .top t.target.chars)
    (hshut : ∀ t ∈ ts.dropLast, depthAfter t.target.chars = 0) :
    readMoves (' ' :: List.intercalate [',', ' '] (ts.map writeMove)) =
      .ok (ts.map fun t => (t.symbol, t.target)) := by
  rw [cons_intercalate (mt List.map_eq_nil_iff.mp hne), List.map_map]
  refine readMoves_intercalate (mt List.map_eq_nil_iff.mp hne) (fun s hs => ?_) (fun s hs => ?_)
    ?_ ?_
  · obtain ⟨t, ht, rfl⟩ := List.mem_map.mp hs
    obtain ⟨hx, _, htarget⟩ := hts t ht
    obtain ⟨u, hu, hmove⟩ := exists_passes_writeMove hx
    show Clear _ _ (' ' :: writeMove t)
    rw [hmove]
    exact hu.append_clear htarget
  · rw [← List.map_dropLast] at hs
    obtain ⟨t, ht, rfl⟩ := List.mem_map.mp hs
    obtain ⟨hx, hp, _⟩ := hts t (List.mem_of_mem_dropLast ht)
    obtain ⟨u, hu, hmove⟩ := exists_passes_writeMove hx
    show Nesting.top.after (' ' :: writeMove t) = .top
    rw [hmove, Nesting.after_append, hu.after_eq, after_top_of_unquoted hp.unquoted, hshut t ht]
    rfl
  · rw [List.mapM_map]
    exact mapM_eq_ok fun t ht => readMove_writeMove (hts t ht).1 (hts t ht).2.1
  · obtain ⟨t, rest, rfl⟩ := List.exists_cons_of_ne_nil hne
    have hquote : '"' ∈ List.intercalate [','] ((t :: rest).map (' ' :: writeMove ·)) := by
      cases rest <;> simp [writeMove]
    exact isBlankText_eq_false hquote (by decide)

theorem writeMoves_eq (hne : ts ≠ []) :
    writeMoves ts = [' ', ':', ' '] ++ List.intercalate [',', ' '] (ts.map writeMove) := by
  cases ts with
  | nil => exact absurd rfl hne
  | cons t ts => rfl

end Description

namespace Automaton.Recoverable

theorem transition (h : a.Recoverable) (ht : t ∈ a.transitions) : '"' ∉ t.symbol.chars ∧
    Legible t.target.chars ∧ Clear (· = ',') .top t.target.chars :=
  ⟨(h.symbols t ht).1, (h.names t.target (a.valid.target_mem t ht)).1, h.targets t ht⟩

theorem oneLine_writeState (h : a.Recoverable) (hq : q ∈ a.states) : '\n' ∉ a.writeState q := by
  have hmoves : ∀ t ∈ (a.transitionsFrom q).toList, '\n' ∉ writeMove t := fun t ht => by
    obtain ⟨ht, _⟩ := mem_transitionsFrom.mp ht
    have htarget := (h.names t.target (a.valid.target_mem t ht)).2.1
    simp [writeMove, (h.symbols t ht).2, htarget]
  simp only [writeState, List.mem_append, not_or]
  refine ⟨⟨(written_plain _).2, (h.names q hq).2.1⟩, ?_⟩
  by_cases hts : (a.transitionsFrom q).toList = []
  · rw [hts]
    exact List.not_mem_nil
  · rw [writeMoves_eq hts, List.mem_append, not_or]
    refine ⟨by decide, fun hc => ?_⟩
    rcases mem_intercalate hc with hc | ⟨s, hs, hc⟩
    · exact absurd hc (by decide)
    · obtain ⟨t, ht, rfl⟩ := List.mem_map.mp hs
      exact hmoves t ht hc

/-- A written line does not end in a blank, so in no carriage return either. -/
theorem exists_last_writeState (h : a.Recoverable) (hq : q ∈ a.states) :
    ∃ c ∈ (a.writeState q).getLast?, isBlank c = false := by
  rw [writeState]
  by_cases hts : (a.transitionsFrom q).toList = []
  · rw [hts, writeMoves, List.append_nil]
    exact exists_last_append (h.names q hq).1.exists_last _
  · rw [writeMoves_eq hts]
    refine exists_last_append (exists_last_append (exists_last_intercalate ?_ ?_ _) _) _
    · exact mt List.map_eq_nil_iff.mp hts
    · intro s hs
      obtain ⟨t, ht, rfl⟩ := List.mem_map.mp hs
      have htarget := (h.transition (mem_transitionsFrom.mp ht).1).2.1
      exact exists_last_append htarget.exists_last _

theorem lines_print (h : a.Recoverable) : lines a.print = a.states.toList.map a.writeState := by
  rw [print, ← List.flatMap_map a.writeState (· ++ ['\n'])]
  refine lines_flatMap_of_exists_last (fun line hline => ?_) fun line hline => ?_
  · obtain ⟨q, hq, rfl⟩ := List.mem_map.mp hline
    exact h.oneLine_writeState hq
  · obtain ⟨q, hq, rfl⟩ := List.mem_map.mp hline
    exact h.exists_last_writeState hq

/-- The colon of a written line is the one after the state, if there are transitions. -/
theorem cutAtColon_writeState (h : a.Recoverable) (hq : q ∈ a.states) :
    ∃ v body, Blank v ∧ cutAtColon (a.writeState q) = ((a.role q).written ++ q.chars ++ v, body) ∧
      readMoves body = .ok ((a.transitionsFrom q).toList.map fun t => (t.symbol, t.target)) := by
  obtain ⟨hlegible, _, huncut⟩ := h.names q hq
  have hwritten := (written_plain (a.role q)).1.passes
  by_cases hts : (a.transitionsFrom q).toList = []
  · refine ⟨[], [], .nil, ?_, by rw [hts]; rfl⟩
    have hline : a.writeState q = (a.role q).written ++ q.chars ++ [] := by
      rw [writeState, hts]
      rfl
    rw [hline, List.append_nil, cutAtColon,
      cutTopLevel?_eq_none_iff.mpr (hwritten.append_clear huncut)]
    rfl
  -- The name may leave a brace open only if no colon has to be found after it.
  · have hshut : depthAfter q.chars = 0 := by
      obtain ⟨t, ht⟩ := List.exists_mem_of_ne_nil _ hts
      obtain ⟨ht, hsource⟩ := mem_transitionsFrom.mp ht
      exact hsource ▸ h.sources t ht
    have hpasses : Passes (· = ':') q.chars := by
      refine ⟨huncut, ?_⟩
      rw [after_top_of_unquoted hlegible.unquoted, hshut]
      rfl
    refine ⟨[' '], ' ' :: List.intercalate [',', ' '] ((a.transitionsFrom q).toList.map writeMove),
      by decide, ?_, readMoves_writeMoves hts (fun t ht => ?_) fun t ht => ?_⟩
    · have hline : a.writeState q = (a.role q).written ++ q.chars ++ [' '] ++ ':' ::
          (' ' :: List.intercalate [',', ' '] ((a.transitionsFrom q).toList.map writeMove)) := by
        rw [writeState, writeMoves_eq hts]
        simp
      have hspace : Plain (· = ':') [' '] := by decide
      rw [hline, cutAtColon,
        cutTopLevel?_separator ((hwritten.append hpasses).append hspace.passes) rfl]
      rfl
    · exact h.transition (mem_transitionsFrom.mp ht).1
    · obtain ⟨t', ht', hlt⟩ := SortedSet.exists_lt_of_mem_dropLast ht
      obtain ⟨ht, hsource⟩ := mem_transitionsFrom.mp (List.mem_of_mem_dropLast ht)
      obtain ⟨ht', hsource'⟩ := mem_transitionsFrom.mp ht'
      exact h.shut t ht t' ht' (hsource.trans hsource'.symm) hlt

theorem readLine_writeState (h : a.Recoverable) (hq : q ∈ a.states) (d : Draft) :
    readLine d (a.writeState q) = (d.declare (a.role q) q).map fun d =>
      ((a.transitionsFrom q).toList.map fun t => (t.symbol, t.target)).foldl
        (Draft.connect q) d := by
  have hplain : a.role q = ⟨false, false⟩ →
      ¬ ['-', '>'] <+: q.chars ∧ ¬ ['*'] <+: q.chars := fun hrole => by
    obtain ⟨hstart, hfinal⟩ := Role.mk.inj hrole
    exact h.unmarked q hq (of_decide_eq_false hstart) (of_decide_eq_false hfinal)
  have hblank : isBlankText (a.writeState q) = false := by
    obtain ⟨c, hc, hnonblank⟩ := h.exists_last_writeState hq
    exact isBlankText_eq_false (List.mem_of_getLast? hc) hnonblank
  obtain ⟨v, body, hv, hcut, hmoves⟩ := h.cutAtColon_writeState hq
  exact readLine_of_parts d hblank hcut (readDefinition_written (h.names q hq).1 hv hplain) hmoves

end Automaton.Recoverable

/-! ### Drafts -/

namespace Description

theorem connect_all (moves : List (Symbol × State)) (d : Draft) :
    (moves.foldl (Draft.connect q) d).start? = d.start? ∧
      (moves.foldl (Draft.connect q) d).finals = d.finals ∧
      (∀ p, p ∈ (moves.foldl (Draft.connect q) d).states ↔
        p ∈ d.states ∨ ∃ m ∈ moves, m.2 = p) ∧
      ∀ t, t ∈ (moves.foldl (Draft.connect q) d).transitions ↔
        t ∈ d.transitions ∨ ∃ m ∈ moves, ⟨q, m.1, m.2⟩ = t := by
  induction moves generalizing d with
  | nil => simp
  | cons m moves ih =>
    obtain ⟨hstart, hfinals, hstates, htransitions⟩ := ih (d.connect q m)
    rw [List.foldl_cons]
    refine ⟨hstart, hfinals, fun p => ?_, fun t => ?_⟩
    · rw [hstates, Draft.connect, List.mem_cons, List.exists_mem_cons_iff]
      tauto
    · rw [htransitions, Draft.connect, List.mem_cons, List.exists_mem_cons_iff]
      tauto

theorem connect_transitionsFrom (a : Automaton) (q : State) (d : Draft) :
    ∃ d', ((a.transitionsFrom q).toList.map fun t => (t.symbol, t.target)).foldl
        (Draft.connect q) d = d' ∧ d'.start? = d.start? ∧ d'.finals = d.finals ∧
      (∀ p, p ∈ d'.states ↔ p ∈ d.states ∨ ∃ t ∈ a.transitions, t.source = q ∧ t.target = p) ∧
      ∀ t, t ∈ d'.transitions ↔ t ∈ d.transitions ∨ t ∈ a.transitions ∧ t.source = q := by
  obtain ⟨hstart, hfinals, hstates, htransitions⟩ := connect_all (q := q)
    ((a.transitionsFrom q).toList.map fun t => (t.symbol, t.target)) d
  refine ⟨_, rfl, hstart, hfinals, fun p => ?_, fun t => ?_⟩
  · rw [hstates]
    simp [SortedSet.mem_toList, Automaton.mem_transitionsFrom, and_assoc]
  · have hmove : (∃ m ∈ (a.transitionsFrom q).toList.map fun t => (t.symbol, t.target),
        ⟨q, m.1, m.2⟩ = t) ↔ t ∈ a.transitions ∧ t.source = q := by
      rw [← Automaton.mem_transitionsFrom]
      refine ⟨fun ⟨m, hm, ht⟩ => ?_, fun ht => ⟨(t.symbol, t.target), List.mem_map_of_mem ht, ?_⟩⟩
      · obtain ⟨t', ht', rfl⟩ := List.mem_map.mp hm
        obtain rfl := (Automaton.mem_transitionsFrom.mp ht').2
        exact ht ▸ ht'
      · obtain rfl := (Automaton.mem_transitionsFrom.mp ht).2
        rfl
    rw [htransitions, hmove]

/-- The draft knows what the lines for `done` say, and nothing else. -/
structure Draft.Holds (a : Automaton) (done : List State) (d : Draft) : Prop where
  start : d.start? = if a.start ∈ done then some a.start else none
  states : ∀ p, p ∈ d.states ↔ p ∈ done ∨ ∃ t ∈ a.transitions, t.source ∈ done ∧ t.target = p
  finals : ∀ p, p ∈ d.finals ↔ p ∈ done ∧ p ∈ a.finals
  transitions : ∀ t, t ∈ d.transitions ↔ t ∈ a.transitions ∧ t.source ∈ done

theorem Draft.Holds.empty (a : Automaton) : Draft.Holds a [] .empty :=
  ⟨rfl, by simp [Draft.empty], by simp [Draft.empty], by simp [Draft.empty]⟩

theorem mem_declared_finals {done : List State} {d : Draft} (h : d.Holds a done) (q p : State) :
    p ∈ (if a.isFinal q = true then q :: d.finals else d.finals) ↔
      p ∈ q :: done ∧ p ∈ a.finals := by
  have hisFinal : a.isFinal q = true ↔ q ∈ a.finals := decide_eq_true_iff
  by_cases hfinal : q ∈ a.finals
  · rw [if_pos (hisFinal.mpr hfinal), List.mem_cons, List.mem_cons, h.finals, or_and_right]
    refine or_congr_left ⟨fun hp => ⟨hp, hp ▸ hfinal⟩, And.left⟩
  · have hsame : p ∈ q :: done ∧ p ∈ a.finals ↔ p ∈ done ∧ p ∈ a.finals := by
      rw [List.mem_cons, or_and_right]
      exact or_iff_right fun hp => hfinal (hp.1 ▸ hp.2)
    rw [if_neg (mt hisFinal.mp hfinal), h.finals, hsame]

/-- Every state has one line, so the start state is declared only once. -/
theorem Draft.Holds.declare {done : List State} {d : Draft} (h : d.Holds a done) (hq : q ∉ done) :
    ∃ d', d.declare (a.role q) q = .ok d' ∧
      d'.start? = (if a.start ∈ q :: done then some a.start else none) ∧
      d'.states = q :: d.states ∧ (∀ p, p ∈ d'.finals ↔ p ∈ q :: done ∧ p ∈ a.finals) ∧
      d'.transitions = d.transitions := by
  by_cases hstart : q = a.start
  · have hnone : d.start? = none := by
      rw [h.start, if_neg (hstart ▸ hq)]
    have hmem : a.start ∈ q :: done := hstart ▸ List.mem_cons_self ..
    refine ⟨⟨some q, q :: d.states, if a.isFinal q then q :: d.finals else d.finals,
      d.transitions⟩, ?_, ?_, rfl, mem_declared_finals h q, rfl⟩
    · simp [Draft.declare, Automaton.role, hstart, hnone]
    · rw [if_pos hmem, hstart]
  · have hmem : a.start ∈ q :: done ↔ a.start ∈ done := by
      rw [List.mem_cons]
      exact or_iff_right (Ne.symm hstart)
    refine ⟨⟨d.start?, q :: d.states, if a.isFinal q then q :: d.finals else d.finals,
      d.transitions⟩, ?_, ?_, rfl, mem_declared_finals h q, rfl⟩
    · simp [Draft.declare, Automaton.role, hstart]
    · simp only [h.start, hmem]

/-- A line adds its state, with all transitions out of it and their targets. -/
theorem Draft.Holds.readLine {done : List State} {d : Draft} (ha : a.Recoverable)
    (h : d.Holds a done) (hstate : q ∈ a.states) (hq : q ∉ done) :
    ∃ d', readLine d (a.writeState q) = .ok d' ∧ d'.Holds a (q :: done) := by
  obtain ⟨d₁, hdeclare, hstart, hstates, hfinals, htransitions⟩ := h.declare hq
  obtain ⟨d', hconnect, hstart', hfinals', hstates', htransitions'⟩ :=
    connect_transitionsFrom a q d₁
  refine ⟨d', ?_, hstart'.trans hstart, fun p => ?_, fun p => ?_, fun t => ?_⟩
  · rw [ha.readLine_writeState hstate, hdeclare, ← hconnect]
    rfl
  · rw [hstates', hstates, List.mem_cons, List.mem_cons, h.states]
    simp only [List.mem_cons, or_and_right, and_or_left, exists_or]
    rw [or_assoc, or_assoc, or_assoc]
    exact or_congr_right (or_congr_right or_comm)
  · rw [hfinals', hfinals]
  · rw [htransitions', htransitions, h.transitions, List.mem_cons, and_or_left, or_comm]

theorem Draft.Holds.readStates (ha : a.Recoverable) {l done : List State} {d : Draft} (number : Nat)
    (h : d.Holds a done) (hl : ∀ q ∈ l, q ∈ a.states) (hnodup : l.Nodup)
    (hdone : ∀ q ∈ l, q ∉ done) :
    ∃ d', readLines d number (l.map a.writeState) = .ok d' ∧ d'.Holds a (l.reverse ++ done) := by
  induction l generalizing done d number with
  | nil => exact ⟨d, rfl, h⟩
  | cons q l ih =>
    obtain ⟨hnotin, hnodup⟩ := List.nodup_cons.mp hnodup
    obtain ⟨d₁, hread, hholds⟩ :=
      h.readLine ha (hl q (List.mem_cons_self ..)) (hdone q (List.mem_cons_self ..))
    have hdone' : ∀ p ∈ l, p ∉ q :: done := fun p hp hmem => by
      rcases List.mem_cons.mp hmem with rfl | hmem
      · exact hnotin hp
      · exact hdone p (List.mem_cons_of_mem _ hp) hmem
    obtain ⟨d', hrest, hholds'⟩ :=
      ih (number + 1) hholds (fun p hp => hl p (List.mem_cons_of_mem _ hp)) hnodup hdone'
    refine ⟨d', ?_, ?_⟩
    · rw [List.map_cons, Description.readLines, hread]
      exact hrest
    · rw [List.reverse_cons, List.append_assoc]
      exact hholds'

theorem Draft.Holds.build_eq (ha : a.Recoverable) {done : List State} {d : Draft}
    (h : d.Holds a done) (hdone : ∀ q, q ∈ done ↔ q ∈ a.states) : d.build = .ok a := by
  have hstart : d.start? = some a.start := by
    rw [h.start, if_pos ((hdone _).mpr a.valid.start_mem)]
  have htransitions : ∀ t, t ∈ d.transitions ↔ t ∈ a.transitions := fun t => by
    rw [h.transitions, hdone]
    exact and_iff_left_of_imp (a.valid.source_mem t)
  have hstates : ∀ p, p ∈ d.states ↔ p ∈ a.states := fun p => by
    rw [h.states, hdone]
    refine or_iff_left_of_imp fun ⟨t, ht, _, htarget⟩ => ?_
    exact htarget ▸ a.valid.target_mem t ht
  have hfinals : ∀ p, p ∈ d.finals ↔ p ∈ a.finals := fun p => by
    rw [h.finals, hdone]
    exact and_iff_right_of_imp (a.valid.finals_mem p)
  have halphabet : ∀ x, x ∈ d.transitions.map (·.symbol) ↔ x ∈ a.alphabet := fun x => by
    simp only [List.mem_map, htransitions, ha.alphabet]
  have hcomponents : (⟨.ofList (d.transitions.map (·.symbol)), .ofList d.states, .ofList d.finals,
      a.start, .ofList d.transitions⟩ : Automaton.Components) = a.toComponents := by
    congr 1
    · exact SortedSet.ext fun x => SortedSet.mem_ofList.trans (halphabet x)
    · exact SortedSet.ext fun p => SortedSet.mem_ofList.trans (hstates p)
    · exact SortedSet.ext fun p => SortedSet.mem_ofList.trans (hfinals p)
    · exact SortedSet.ext fun t => SortedSet.mem_ofList.trans (htransitions t)
  rw [Draft.build, hstart]
  show (Automaton.validate _).mapError FormatError.invalid = _
  rw [hcomponents, Automaton.validate_toComponents]
  rfl

end Description

/-- A recoverable automaton is read back from its description. -/
theorem Automaton.Recoverable.parse_eq (h : a.Recoverable) : Automaton.parse a.print = .ok a := by
  obtain ⟨d, hlines, hholds⟩ := (Draft.Holds.empty a).readStates h 1
    (fun q hq => SortedSet.mem_toList.mp hq) a.states.nodup fun _ _ => List.not_mem_nil
  have hbuild : d.build = .ok a := hholds.build_eq h fun q => by
    rw [List.append_nil, List.mem_reverse]
    exact SortedSet.mem_toList
  rw [Automaton.parse, h.lines_print, hlines]
  exact hbuild

/-- A printable automaton is read back from its description. -/
theorem Automaton.parse_print (h : a.Printable) : Automaton.parse a.print = .ok a ∧
    (Automaton.parse a.print).map Automaton.print = .ok a.print := by
  have hread := h.recoverable.parse_eq
  refine ⟨hread, ?_⟩
  rw [hread]
  rfl

/-- Names and symbols that look like the notation around them. -/
def thorny : Automaton where
  alphabet := .ofList [.epsilon, .ofChars [':', ' ', '{', ',', '-', '>']]
  states := .ofList [.ofChars ['{', 'p', ',', ' ', 'q', '}'], .ofChars ['-', '>'], .ofChars ['*'],
    .ofChars ['q']]
  finals := .ofList [.ofChars ['*'], .ofChars ['{', 'p', ',', ' ', 'q', '}']]
  start := .ofChars ['-', '>']
  transitions := .ofList [
    ⟨.ofChars ['-', '>'], .epsilon, .ofChars ['{', 'p', ',', ' ', 'q', '}']⟩,
    ⟨.ofChars ['-', '>'], .ofChars [':', ' ', '{', ',', '-', '>'], .ofChars ['*']⟩,
    ⟨.ofChars ['{', 'p', ',', ' ', 'q', '}'], .epsilon, .ofChars ['q']⟩,
    ⟨.ofChars ['*'], .epsilon, .ofChars ['-', '>']⟩]
  valid := Automaton.Components.defect?_eq_none_iff.mp (by decide)

theorem thorny_printable : thorny.Printable := by decide

theorem thorny_parse_print : thorny.Printable ∧ Automaton.parse thorny.print = .ok thorny ∧
    (Automaton.parse thorny.print).map Automaton.print = .ok thorny.print :=
  ⟨thorny_printable, Automaton.parse_print thorny_printable⟩

end FormalLanguage
