import FormalLanguage.Proofs.Description.Lines

/-! Where reading stops.

Lines are read one after another, up to the first one with a fault. So a fault is
told from its line and the lines before it, which were read without one
(`readLines_eq_error_iff`), and what comes after it plays no part. Every reader of a
part hands on stretches of the text that it was given, so what a fault quotes stands
in its line as it is quoted (`quotesFrom_of_readLine`). -/
namespace FormalLanguage
open Text

namespace Description

variable {s t line : List Char} {l : List (List Char)} {d : Draft} {number k : Nat}
  {fault : LineFault} {separator : Char → Bool}

/-! ### Stretches of a text -/

theorem EndsIn.isInfix (h : EndsIn s t) : t <:+: s := by
  obtain ⟨u, v, rfl, _, _⟩ := h
  exact ⟨u, v, rfl⟩

theorem cutTopLevel?_isInfix {u v : List Char} (h : cutTopLevel? separator s = some (u, v)) :
    u <:+: s ∧ v <:+: s := by
  obtain ⟨c, rfl, _, _, _⟩ := cutFrom_eq_some h
  exact ⟨(List.prefix_append u _).isInfix,
    ((List.suffix_cons c v).trans (List.suffix_append u _)).isInfix⟩

theorem cutAtColon_isInfix (line : List Char) :
    (cutAtColon line).1 <:+: line ∧ (cutAtColon line).2 <:+: line := by
  rw [cutAtColon]
  cases hcut : cutTopLevel? (· = ':') line with
  | none => exact ⟨List.infix_rfl, List.nil_infix⟩
  | some parts => exact cutTopLevel?_isInfix hcut

/-! ### What a fault quotes -/

/-- The stretch of its line that a fault quotes: a marker, a name or a transition. -/
def LineFault.quoted? : LineFault → Option (List Char)
  | .unknownMarker marker => some marker
  | .missingName => none
  | .invalidName name => some name
  | .unquotedSymbol segment => some segment
  | .missingArrow segment => some segment
  | .missingTarget segment => some segment
  | .secondStart _ second => some second.chars

/-- What the fault quotes, if anything, stands in the text. -/
def LineFault.QuotesFrom (fault : LineFault) (s : List Char) : Prop :=
  ∀ part ∈ fault.quoted?, part <:+: s

namespace LineFault

theorem QuotesFrom.of_isInfix (h : fault.QuotesFrom s) (hs : s <:+: t) : fault.QuotesFrom t :=
  fun part hpart => (h part hpart).trans hs

theorem quotesFrom_of_eq (hquoted : fault.quoted? = some s) (hs : s <:+: t) :
    fault.QuotesFrom t := by
  intro part hpart
  rw [hquoted, Option.mem_some_iff] at hpart
  exact hpart ▸ hs

end LineFault

theorem quotesFrom_of_readName (h : readName s = .error fault) : fault.QuotesFrom s := by
  simp only [readName] at h
  split at h
  · rw [← Except.error.inj h]
    exact fun part hpart => absurd hpart (Option.not_mem_none part)
  · split at h
    · rw [← Except.error.inj h]
      exact LineFault.quotesFrom_of_eq rfl (trim_isInfix s)
    · cases h

/-- A name that is read as part of a text. -/
theorem quotesFrom_of_readName_map {α : Type} {f : State → α} (hs : s <:+: t)
    (h : (readName s).map f = .error fault) : fault.QuotesFrom t := by
  cases hname : readName s with
  | error fault' =>
    rw [hname] at h
    rw [← Except.error.inj h]
    exact (quotesFrom_of_readName hname).of_isInfix hs
  | ok q =>
    rw [hname] at h
    cases h

theorem quotesFrom_of_readDefinition (h : readDefinition s = .error fault) :
    fault.QuotesFrom s := by
  suffices hdefinition : fault.QuotesFrom (trim s) from hdefinition.of_isInfix (trim_isInfix s)
  simp only [readDefinition] at h
  split at h
  · next first rest hcut =>
    obtain ⟨hfirst, hrest⟩ := cutTopLevel?_isInfix hcut
    split at h
    · exact quotesFrom_of_readName_map hrest h
    · rw [← Except.error.inj h]
      exact LineFault.quotesFrom_of_eq rfl hfirst
  · split at h
    · next role name hglued =>
      obtain ⟨m, _, hprefix⟩ := List.exists_of_findSome?_eq_some hglued
      obtain ⟨name', hname, heq⟩ := Option.map_eq_some_iff.mp hprefix
      obtain ⟨_, rfl⟩ := Prod.mk.inj heq
      have hsuffix : name' <:+ trim s := ⟨m.1, List.append_eq_of_isPrefixOf?_eq_some hname⟩
      exact quotesFrom_of_readName_map hsuffix.isInfix h
    · exact quotesFrom_of_readName_map List.infix_rfl h

theorem quotesFrom_of_readMove (h : readMove s = .error fault) : fault.QuotesFrom s := by
  suffices hsegment : fault.QuotesFrom (trim s) from hsegment.of_isInfix (trim_isInfix s)
  simp only [readMove] at h
  split at h
  · rw [← Except.error.inj h]
    exact LineFault.quotesFrom_of_eq rfl List.infix_rfl
  · next symbol rest hquoted =>
    split at h
    · rw [← Except.error.inj h]
      exact LineFault.quotesFrom_of_eq rfl List.infix_rfl
    · next target htarget =>
      split at h
      · rw [← Except.error.inj h]
        exact LineFault.quotesFrom_of_eq rfl List.infix_rfl
      · have hsymbol : rest <:+ trim s := ⟨_, (eq_of_readQuoted? hquoted).1.symm⟩
        have hstart : trimStart rest <:+ rest := List.dropWhile_suffix _
        have harrow : target <:+ trimStart rest :=
          ⟨_, List.append_eq_of_isPrefixOf?_eq_some htarget⟩
        exact quotesFrom_of_readName_map ((harrow.trans hstart).trans hsymbol).isInfix h

theorem quotesFrom_of_readMoves (h : readMoves s = .error fault) : fault.QuotesFrom s := by
  rw [readMoves] at h
  split at h
  · cases h
  · obtain ⟨before, segment, after, hsegments, _, hfault⟩ := mapM_eq_error_iff.mp h
    have hmem : segment ∈ splitTopLevel (· = ',') s := by
      rw [hsegments]
      exact List.mem_append_right _ (List.mem_cons_self ..)
    exact (quotesFrom_of_readMove hfault).of_isInfix (isInfix_of_mem_splitTopLevel hmem)

theorem Draft.declare_eq_error {role : Role} {q : State} (h : d.declare role q = .error fault) :
    ∃ first, fault = .secondStart first q := by
  obtain ⟨start, final⟩ := role
  obtain ⟨start?, states, finals, transitions⟩ := d
  cases start <;> cases start? <;> simp [Draft.declare] at h
  exact ⟨_, h.symm⟩

theorem quotesFrom_of_readLine (h : readLine d line = .error fault) : fault.QuotesFrom line := by
  obtain ⟨hdefinition, hbody⟩ := cutAtColon_isInfix line
  rw [readLine] at h
  split at h
  · cases h
  · rcases bind_eq_error_iff.mp h with h | ⟨⟨role, q⟩, hread, h⟩
    · exact (quotesFrom_of_readDefinition h).of_isInfix hdefinition
    · rcases bind_eq_error_iff.mp h with h | ⟨_, _, h⟩
      · obtain ⟨first, rfl⟩ := Draft.declare_eq_error h
        have hname := (endsIn_of_readDefinition hread).2.isInfix
        exact LineFault.quotesFrom_of_eq rfl (hname.trans hdefinition)
      · rcases bind_eq_error_iff.mp h with h | ⟨_, _, h⟩
        · exact (quotesFrom_of_readMoves h).of_isInfix hbody
        · cases h

/-! ### The first fault -/

/-- Reading stops at a line if the lines before it are read and it has a fault behind them. -/
theorem readLines_eq_error_iff : readLines d number l = .error (.atLine k fault) ↔
    ∃ before line after d', l = before ++ line :: after ∧ readLines d number before = .ok d' ∧
      readLine d' line = .error fault ∧ k = number + before.length := by
  induction l generalizing d number with
  | nil => simp [readLines]
  | cons first l ih =>
    cases hfirst : readLine d first with
    | error fault' =>
      rw [readLines, hfirst]
      constructor
      · intro h
        obtain ⟨rfl, rfl⟩ := FormatError.atLine.inj (Except.error.inj h)
        exact ⟨[], first, l, d, rfl, rfl, hfirst, rfl⟩
      · rintro ⟨before, line, after, d', hl, hbefore, hline, rfl⟩
        cases before with
        | nil =>
          obtain ⟨rfl, rfl⟩ := List.cons.inj hl
          obtain rfl := Except.ok.inj hbefore
          rw [hfirst] at hline
          rw [Except.error.inj hline]
          rfl
        | cons _ before =>
          obtain ⟨rfl, rfl⟩ := List.cons.inj hl
          rw [readLines, hfirst] at hbefore
          cases hbefore
    | ok d₁ =>
      have hskip (l' : List (List Char)) :
          readLines d number (first :: l') = readLines d₁ (number + 1) l' := by
        rw [readLines, hfirst]
      rw [hskip, ih]
      constructor
      · rintro ⟨before, line, after, d', rfl, hbefore, hline, rfl⟩
        refine ⟨first :: before, line, after, d', rfl, (hskip before).trans hbefore, hline, ?_⟩
        rw [List.length_cons]
        omega
      · rintro ⟨before, line, after, d', hl, hbefore, hline, rfl⟩
        cases before with
        | nil =>
          obtain ⟨rfl, rfl⟩ := List.cons.inj hl
          obtain rfl := Except.ok.inj hbefore
          rw [hfirst] at hline
          cases hline
        | cons _ before =>
          obtain ⟨rfl, rfl⟩ := List.cons.inj hl
          refine ⟨before, line, after, d', rfl, (hskip before).symm.trans hbefore, hline, ?_⟩
          rw [List.length_cons]
          omega

/-- All lines were read when an automaton is built, so what is wrong with it is at none of them. -/
theorem Draft.build_ne_atLine (d : Draft) : d.build ≠ .error (.atLine k fault) := by
  intro h
  rw [Draft.build] at h
  split at h
  · cases h
  · obtain ⟨e, _, he⟩ := mapError_eq_error_iff.mp h
    cases he

end Description

open Description

namespace Automaton

variable {s t : List Char} {k : Nat} {fault : LineFault}

theorem parse_eq_atLine_iff : parse s = .error (.atLine k fault) ↔
    ∃ before line after d, lines s = before ++ line :: after ∧ readLines .empty 1 before = .ok d ∧
      readLine d line = .error fault ∧ k = before.length + 1 := by
  have hparse : parse s = .error (.atLine k fault) ↔
      readLines .empty 1 (lines s) = .error (.atLine k fault) :=
    bind_eq_error_iff.trans (or_iff_left fun ⟨d, _, hbuild⟩ => d.build_ne_atLine hbuild)
  rw [hparse, readLines_eq_error_iff]
  simp only [Nat.add_comm 1]

/-- Lines that are read give an automaton, or lack a start state, or are not those of one. -/
theorem parse_of_readLines {d : Draft} (h : readLines .empty 1 (lines s) = .ok d) :
    (∃ a, parse s = .ok a) ∨ parse s = .error .missingStart ∨
      ∃ e, parse s = .error (.invalid e) := by
  have hparse : parse s = d.build := by
    rw [parse, h]
    rfl
  rw [hparse]
  cases hbuild : d.build with
  | ok a => exact .inl ⟨a, rfl⟩
  | error e =>
    cases e with
    | atLine k fault => exact absurd hbuild d.build_ne_atLine
    | missingStart => exact .inr (.inl rfl)
    | invalid e => exact .inr (.inr ⟨e, rfl⟩)

/-- A fault is reported of a line of the text, and it depends on this line and the lines before it.
These alone have no fault, and what the fault quotes stands in its line. -/
theorem parse_atLine_exact (h : parse s = .error (.atLine k fault)) :
    (1 ≤ k ∧ k ≤ (lines s).length) ∧
      (∀ t, (lines t).take k = (lines s).take k → parse t = .error (.atLine k fault)) ∧
      (∃ t, t <+: s ∧ lines t = (lines s).take (k - 1)) ∧
      (∀ t, lines t = (lines s).take (k - 1) → (∃ a, parse t = .ok a) ∨
        parse t = .error .missingStart ∨ ∃ e, parse t = .error (.invalid e)) ∧
      ∃ line, (lines s)[k - 1]? = some line ∧ fault.QuotesFrom line := by
  obtain ⟨before, line, after, d, hs, hbefore, hline, rfl⟩ := parse_eq_atLine_iff.mp h
  have htake : (lines s).take before.length = before := by
    rw [hs, List.take_left]
  refine ⟨⟨Nat.le_add_left 1 _, ?_⟩, fun t ht => ?_, exists_prefix_lines s before.length,
    fun t ht => ?_, line, ?_, quotesFrom_of_readLine hline⟩
  · rw [hs, List.length_append, List.length_cons]
    omega
  · have hfirst : (lines t).take (before.length + 1) = before ++ [line] := by
      rw [ht, hs, List.take_length_add_append]
      rfl
    have htext : lines t = before ++ line :: (lines t).drop (before.length + 1) := by
      conv_lhs => rw [← List.take_append_drop (before.length + 1) (lines t), hfirst]
      simp
    exact parse_eq_atLine_iff.mpr ⟨before, line, _, d, htext, hbefore, hline, rfl⟩
  · rw [Nat.add_sub_cancel, htake] at ht
    exact parse_of_readLines (ht ▸ hbefore)
  · rw [Nat.add_sub_cancel, hs, List.getElem?_append_right (Nat.le_refl _), Nat.sub_self]
    rfl

/-- A blank line is counted, and the line after the faulty one is not looked at. -/
def faultyText : List Char :=
  ['-', '>', 'p', '\r', '\n', ' ', '\n', '*', 'q', ':', '"', 'a', '"', '-', '>', 'p', ',', ' ', '"',
    'b', '"', '\n', 'r', 's']

theorem faultyText_fault : parse faultyText = .error (.atLine 3 (.missingArrow ['"', 'b', '"'])) ∧
    (1 ≤ 3 ∧ 3 ≤ (lines faultyText).length) ∧
      (∀ t, (lines t).take 3 = (lines faultyText).take 3 →
        parse t = .error (.atLine 3 (.missingArrow ['"', 'b', '"']))) ∧
      (∃ t, t <+: faultyText ∧ lines t = (lines faultyText).take 2) ∧
      (∀ t, lines t = (lines faultyText).take 2 → (∃ a, parse t = .ok a) ∨
        parse t = .error .missingStart ∨ ∃ e, parse t = .error (.invalid e)) ∧
      ∃ line, (lines faultyText)[2]? = some line ∧
        (LineFault.missingArrow ['"', 'b', '"']).QuotesFrom line := by
  have hparse : parse faultyText = .error (.atLine 3 (.missingArrow ['"', 'b', '"'])) := by decide
  exact ⟨hparse, parse_atLine_exact hparse⟩

end Automaton
end FormalLanguage
