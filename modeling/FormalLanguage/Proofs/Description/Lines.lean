import FormalLanguage.Proofs.Description.Meaning

/-! Lines by themselves.

A line is `Faultless` if it has no fault when it is read alone. It then says the same
whatever was read before it, an entry or nothing at all (`readAs_entryOf?`), and
readable lines can go wrong together in three ways only: two of them mark a start
state, or none does, or none marks a final state. So what is wrong with a
description that is invalid, and what the others mean, can be told from its lines
one by one (`ofLines_eq_invalid_iff`, `ofLines_eq_ok_iff`). -/
namespace FormalLanguage
open Text

namespace Description

variable {line : List Char} {l : List (List Char)} {d d' : Draft} {q : State} {e : Entry}
  {number : Nat}

/-! ### What a line says -/

/-- A line that has no fault when it is read alone. -/
def Faultless (line : List Char) : Prop := ∃ d, readLine .empty line = .ok d

/-- The role that a line gives to its state. A line without a readable name gives none. -/
def lineRole (line : List Char) : Role :=
  match readDefinition (cutAtColon line).1 with
  | .ok (role, _) => role
  | .error _ => ⟨false, false⟩

/-- The line gives the name in front of its colon, behind a marker or not. -/
def Names (line : List Char) (q : State) : Prop :=
  ∃ role, readDefinition (cutAtColon line).1 = .ok (role, q)

/-- A marking for the role. -/
def Role.marking : Role → Marking
  | ⟨true, true⟩ => .startFinal
  | ⟨true, false⟩ => .start
  | ⟨false, true⟩ => .final
  | ⟨false, false⟩ => .plain

theorem Role.role_marking (role : Role) : role.marking.role = role := by
  obtain ⟨start, final⟩ := role
  cases start <;> cases final <;> rfl

/-- What a line says, if its parts can be read. -/
def entryOf? (line : List Char) : Option Entry :=
  match readDefinition (cutAtColon line).1, readMoves (cutAtColon line).2 with
  | .ok (role, q), .ok moves => some ⟨role.marking, q, some moves⟩
  | _, _ => none

theorem entryOf?_eq_some_iff : entryOf? line = some e ↔
    ∃ role q moves, readDefinition (cutAtColon line).1 = .ok (role, q) ∧
      readMoves (cutAtColon line).2 = .ok moves ∧ e = ⟨role.marking, q, some moves⟩ := by
  unfold entryOf?
  split
  · next role q moves hdefinition hmoves => simp [hdefinition, hmoves, eq_comm]
  · next hother =>
    refine iff_of_false (by simp) ?_
    rintro ⟨role, q, moves, hdefinition, hmoves, _⟩
    exact hother role q moves hdefinition hmoves

theorem lineRole_of_entry (h : entryOf? line = some e) : lineRole line = e.marking.role := by
  obtain ⟨role, q, moves, hdefinition, _, rfl⟩ := entryOf?_eq_some_iff.mp h
  rw [lineRole, hdefinition]
  exact role.role_marking.symm

theorem names_of_entry (h : entryOf? line = some e) : Names line q ↔ e.name = q := by
  obtain ⟨role, p, moves, hdefinition, _, rfl⟩ := entryOf?_eq_some_iff.mp h
  simp [Names, hdefinition]

/-- A name that is read is not blank. -/
theorem not_names_of_blank (h : Blank line) : ¬ Names line q := by
  rintro ⟨role, hdefinition⟩
  obtain ⟨hlegible, hends⟩ := endsIn_of_readDefinition hdefinition
  obtain ⟨c, hc, hblank⟩ := hlegible.exists_last
  have hline : c ∈ line := (cutAtColon_eq rfl).2.1 (hends.subset (List.mem_of_getLast? hc))
  exact h.notMem hblank hline

theorem entryOf?_of_blank (h : Blank line) : entryOf? line = none := by
  refine Option.eq_none_iff_forall_ne_some.mpr fun e he => ?_
  exact not_names_of_blank h ((names_of_entry he).mpr rfl)

theorem lineRole_of_blank (h : Blank line) : lineRole line = ⟨false, false⟩ := by
  unfold lineRole
  split
  · next role q hdefinition => exact absurd ⟨role, hdefinition⟩ (not_names_of_blank h)
  · rfl

theorem readLine_of_entry (h : entryOf? line = some e) (d : Draft) :
    readLine d line = d.add e := by
  have hline : isBlankText line = false := by
    rw [← Bool.not_eq_true, isBlankText, List.isEmpty_iff, trim_eq_nil_iff]
    intro hblank
    rw [entryOf?_of_blank hblank] at h
    cases h
  obtain ⟨role, q, moves, hdefinition, hmoves, rfl⟩ := entryOf?_eq_some_iff.mp h
  rw [readLine_of_parts d hline rfl hdefinition hmoves, Draft.add, role.role_marking]
  rfl

theorem blank_or_entry_of_readLine (h : readLine d line = .ok d') :
    Blank line ∨ ∃ e, entryOf? line = some e := by
  rw [readLine] at h
  split at h
  · next hblank => exact .inl (trim_eq_nil_iff.mp (List.isEmpty_iff.mp hblank))
  · obtain ⟨⟨role, q⟩, hdefinition, h⟩ := bind_eq_ok_iff.mp h
    obtain ⟨_, _, h⟩ := bind_eq_ok_iff.mp h
    obtain ⟨moves, hmoves, _⟩ := bind_eq_ok_iff.mp h
    exact .inr ⟨_, entryOf?_eq_some_iff.mpr ⟨role, q, moves, hdefinition, hmoves, rfl⟩⟩

theorem faultless_iff : Faultless line ↔ Blank line ∨ ∃ e, entryOf? line = some e := by
  refine ⟨fun ⟨_, h⟩ => blank_or_entry_of_readLine h, ?_⟩
  rintro (hblank | ⟨e, he⟩)
  · exact ⟨_, LineText.readLine_blank (.blank hblank) _⟩
  · obtain ⟨d, hd⟩ := Draft.exists_add (d := .empty) (e := e) fun _ => rfl
    exact ⟨d, (readLine_of_entry he _).trans hd⟩

/-- A readable line says the same, whatever was read before it. -/
theorem readAs_entryOf? (h : Faultless line) : ReadAs (entryOf? line) line := by
  intro d
  rcases faultless_iff.mp h with hblank | ⟨e, he⟩
  · rw [entryOf?_of_blank hblank]
    exact LineText.readLine_blank (.blank hblank) d
  · rw [he]
    exact readLine_of_entry he d

theorem any_isStart_entryOf? (h : Faultless line) :
    (entryOf? line).any Entry.isStart = (lineRole line).start := by
  rcases faultless_iff.mp h with hblank | ⟨e, he⟩
  · rw [entryOf?_of_blank hblank, lineRole_of_blank hblank]
    rfl
  · rw [he, lineRole_of_entry he]
    rfl

/-! ### Reading lines -/

theorem length_startRows (number : Nat) (rows : List (Option Entry)) :
    (startRows number rows).length = rows.countP (·.any Entry.isStart) := by
  induction rows generalizing number with
  | nil => rfl
  | cons row rows ih =>
    cases row with
    | none => simp [startRows, ih]
    | some e =>
      by_cases he : e.isStart = true <;> simp [startRows, ih, he]

theorem length_startRows_lines (hl : ∀ line ∈ l, Faultless line) (number : Nat) :
    (startRows number (l.map entryOf?)).length = l.countP fun line => (lineRole line).start := by
  rw [length_startRows, List.countP_map]
  refine List.countP_congr fun line hline => ?_
  exact Bool.eq_iff_iff.mp (any_isStart_entryOf? (hl line hline))

/-- What can be told of lines can be told of their entries, if no blank line has it. -/
theorem exists_entry_iff {P : Entry → Prop} {Q : List Char → Prop}
    (hl : ∀ line ∈ l, Faultless line) (hblank : ∀ line, Blank line → ¬ Q line)
    (hentry : ∀ line e, entryOf? line = some e → (Q line ↔ P e)) :
    (∃ e, some e ∈ l.map entryOf? ∧ P e) ↔ ∃ line ∈ l, Q line := by
  constructor
  · rintro ⟨e, he, hP⟩
    obtain ⟨line, hline, he⟩ := List.mem_map.mp he
    exact ⟨line, hline, (hentry line e he).mpr hP⟩
  · rintro ⟨line, hline, hQ⟩
    rcases faultless_iff.mp (hl line hline) with h | ⟨e, he⟩
    · exact absurd hQ (hblank line h)
    · exact ⟨e, he ▸ List.mem_map_of_mem hline, (hentry line e he).mp hQ⟩

theorem exists_start_iff (hl : ∀ line ∈ l, Faultless line) :
    (∃ e, some e ∈ l.map entryOf? ∧ e.isStart = true) ↔
      ∃ line ∈ l, (lineRole line).start = true := by
  refine exists_entry_iff hl (fun line h => ?_) fun line e he => ?_
  · simp [lineRole_of_blank h]
  · rw [lineRole_of_entry he]
    rfl

theorem exists_final_iff (hl : ∀ line ∈ l, Faultless line) :
    (∃ e, some e ∈ l.map entryOf? ∧ e.isFinal = true) ↔
      ∃ line ∈ l, (lineRole line).final = true := by
  refine exists_entry_iff hl (fun line h => ?_) fun line e he => ?_
  · simp [lineRole_of_blank h]
  · rw [lineRole_of_entry he]
    rfl

theorem exists_named_iff (hl : ∀ line ∈ l, Faultless line) :
    (∃ e, some e ∈ l.map entryOf? ∧ e.name = q) ↔ ∃ line ∈ l, Names line q :=
  exists_entry_iff hl (fun _ => not_names_of_blank) fun _ _ => names_of_entry

theorem readAs_lines (hl : ∀ line ∈ l, Faultless line) :
    List.Forall₂ ReadAs (l.map entryOf?) l := by
  rw [List.forall₂_map_left_iff, List.forall₂_same]
  exact fun line hline => readAs_entryOf? (hl line hline)

theorem faultless_of_readLines (h : readLines d number l = .ok d') :
    ∀ line ∈ l, Faultless line := by
  induction l generalizing d number with
  | nil => exact nofun
  | cons line l ih =>
    rw [readLines] at h
    split at h
    · cases h
    · next d₁ hd₁ =>
      exact List.forall_mem_cons.mpr ⟨faultless_iff.mpr (blank_or_entry_of_readLine hd₁), ih h⟩

theorem exists_atLine_of_readLines {fault : FormatError} (h : readLines d number l = .error fault) :
    ∃ k f, fault = .atLine k f := by
  induction l generalizing d number with
  | nil => cases h
  | cons line l ih =>
    rw [readLines] at h
    split at h
    · exact ⟨_, _, (Except.error.inj h).symm⟩
    · exact ih h

/-- Lines without a fault, of which one marks the start state. -/
structure Coherent (l : List (List Char)) : Prop where
  faultless : ∀ line ∈ l, Faultless line
  oneStart : l.countP (fun line => (lineRole line).start) = 1

theorem Coherent.exists_start (h : Coherent l) :
    ∃ e, some e ∈ l.map entryOf? ∧ e.isStart = true := by
  have hpos : 0 < l.countP fun line => (lineRole line).start := by
    rw [h.oneStart]
    decide
  exact (exists_start_iff h.faultless).mpr (List.countP_pos_iff.mp hpos)

/-- Coherent lines are read to the end, and the draft knows what they say. -/
theorem Coherent.exists_readLines (h : Coherent l) (he : some e ∈ l.map entryOf?)
    (hstart : e.isStart = true) : ∃ d, readLines .empty 1 l = .ok d ∧
      d.Gathers (l.map entryOf?) ∧ d.start? = some e.name := by
  obtain ⟨i, hi⟩ := List.mem_iff_getElem?.mp he
  have hmem : (1 + i, e.name) ∈ startRows 1 (l.map entryOf?) :=
    mem_startRows.mpr ⟨i, e, hi, hstart, rfl, rfl⟩
  have hone := h.oneStart
  rw [← length_startRows_lines h.faultless 1] at hone
  obtain ⟨only, honly⟩ := List.length_eq_one_iff.mp hone
  rw [honly, List.mem_singleton] at hmem
  rw [← hmem] at honly
  have htail : (Draft.empty.starts 1 (l.map entryOf?)).tail = [] := congrArg List.tail honly
  obtain ⟨d, hd, hgathers, hd'⟩ := readRows_gathers (readAs_lines h.faultless) .empty htail
  exact ⟨d, hd, hgathers, hd'.trans (congrArg (·.head?.map Prod.snd) honly)⟩

/-- Lines that are read to the end and mark a start state mark one only. -/
theorem coherent_of_readLines (h : readLines .empty 1 l = .ok d) (hd : d.start? ≠ none) :
    Coherent l := by
  have hl := faultless_of_readLines h
  have hrows := readAs_lines hl
  refine ⟨hl, ?_⟩
  -- Without a start row the draft has no start state, and at a second one reading stops.
  rw [← length_startRows_lines hl 1]
  cases hstarts : startRows 1 (l.map entryOf?) with
  | nil =>
    have htail : (Draft.empty.starts 1 (l.map entryOf?)).tail = [] := congrArg List.tail hstarts
    obtain ⟨d', hd', _, hstart⟩ := readRows_gathers hrows .empty htail
    obtain rfl : d = d' := Except.ok.inj (h.symm.trans hd')
    exact absurd (hstart.trans (congrArg (·.head?.map Prod.snd) hstarts)) hd
  | cons first rest =>
    cases rest with
    | nil => rfl
    | cons second rest =>
      have hfirst : (Draft.empty.starts 1 (l.map entryOf?)).head?.map Prod.snd =
          some first.2 := congrArg (·.head?.map Prod.snd) hstarts
      have hsecond : (Draft.empty.starts 1 (l.map entryOf?)).tail.head? = some second :=
        congrArg (·.tail.head?) hstarts
      rw [readRows_secondStart hrows hfirst hsecond] at h
      cases h

end Description

open Description

/-! ### What lines say together -/

namespace Automaton

variable {l : List (List Char)} {e : Entry} {a b : Automaton}

/-- The automaton that the lines of a text describe. -/
def ofLines (l : List (List Char)) : Except FormatError Automaton :=
  readLines .empty 1 l >>= Draft.build

theorem parse_eq_ofLines (s : List Char) : parse s = ofLines (lines s) := rfl

/-- Coherent lines of which some marks a final state and that together mean the automaton. -/
structure DescribedBy (l : List (List Char)) (a : Automaton) : Prop where
  coherent : Coherent l
  start : ∃ e, some e ∈ l.map entryOf? ∧ e.isStart = true ∧ e.name = a.start
  final : ∃ e, some e ∈ l.map entryOf? ∧ e.isFinal = true
  means : Means (l.map entryOf?) a.start a

theorem eq_of_means {rows : List (Option Entry)} {q : State} (ha : Means rows q a)
    (hb : Means rows q b) : a = b :=
  ext_of_mem (ha.start.trans hb.start.symm)
    (fun x => (ha.alphabet x).trans (hb.alphabet x).symm)
    (fun p => (ha.states p).trans (hb.states p).symm)
    (fun p => (ha.finals p).trans (hb.finals p).symm)
    fun t => (ha.transitions t).trans (hb.transitions t).symm

theorem coherent_of_ofLines (hline : ∀ k fault, ofLines l ≠ .error (.atLine k fault))
    (hstart : ofLines l ≠ .error .missingStart) : Coherent l := by
  cases hread : readLines .empty 1 l with
  | error fault =>
    obtain ⟨k, fault, rfl⟩ := exists_atLine_of_readLines hread
    exact absurd (bind_eq_error_iff.mpr (.inl hread)) (hline k fault)
  | ok d =>
    refine coherent_of_readLines hread fun hd => hstart ?_
    refine bind_eq_error_iff.mpr (.inr ⟨d, hread, ?_⟩)
    rw [Draft.build, hd]

theorem ofLines_eq_noFinals (h : Coherent l)
    (hfinal : ¬ ∃ e, some e ∈ l.map entryOf? ∧ e.isFinal = true) :
    ofLines l = .error (.invalid .noFinals) := by
  obtain ⟨e, he, hstart⟩ := h.exists_start
  obtain ⟨d, hd, hgathers, hq⟩ := h.exists_readLines he hstart
  have hbuild := hgathers.build_eq_error hq ⟨e, he, rfl⟩ fun e he =>
    Bool.eq_false_iff.mpr fun hmarked => hfinal ⟨e, he, hmarked⟩
  exact bind_eq_error_iff.mpr (.inr ⟨d, hd, hbuild⟩)

theorem exists_ofLines (h : Coherent l) (he : some e ∈ l.map entryOf?) (hstart : e.isStart = true)
    (hfinal : ∃ e, some e ∈ l.map entryOf? ∧ e.isFinal = true) :
    ∃ a, ofLines l = .ok a ∧ Means (l.map entryOf?) e.name a := by
  obtain ⟨d, hd, hgathers, hq⟩ := h.exists_readLines he hstart
  obtain ⟨a, hbuild, hmeans⟩ := hgathers.exists_build hq ⟨e, he, rfl⟩ hfinal
  exact ⟨a, bind_eq_ok_iff.mpr ⟨d, hd, hbuild⟩, hmeans⟩

theorem ofLines_eq_ok_iff : ofLines l = .ok a ↔ DescribedBy l a := by
  constructor
  · intro h
    have hcoherent : Coherent l := coherent_of_ofLines (by simp [h]) (by simp [h])
    by_cases hfinal : ∃ e, some e ∈ l.map entryOf? ∧ e.isFinal = true
    · obtain ⟨e, he, hstart⟩ := hcoherent.exists_start
      obtain ⟨b, hb, hmeans⟩ := exists_ofLines hcoherent he hstart hfinal
      obtain rfl : a = b := Except.ok.inj (h.symm.trans hb)
      have hname := hmeans.start
      exact ⟨hcoherent, ⟨e, he, hstart, hname.symm⟩, hfinal, hname ▸ hmeans⟩
    · rw [ofLines_eq_noFinals hcoherent hfinal] at h
      cases h
  · rintro ⟨hcoherent, ⟨e, he, hstart, hname⟩, hfinal, hmeans⟩
    obtain ⟨b, hb, hmeans'⟩ := exists_ofLines hcoherent he hstart hfinal
    rw [hname] at hmeans'
    rwa [eq_of_means hmeans hmeans']

/-- A state has a line of its own or is where a transition leads. -/
theorem DescribedBy.mem_states (h : DescribedBy l a) {q : State} :
    q ∈ a.states ↔ (∃ line ∈ l, Names line q) ∨ ∃ t ∈ a.transitions, t.target = q := by
  rw [h.means.states, ← exists_named_iff h.coherent.faultless]
  simp only [h.means.transitions]
  constructor
  · rintro ⟨e, he, hname | ⟨m, hm, htarget⟩⟩
    · exact .inl ⟨e, he, hname⟩
    · exact .inr ⟨_, ⟨e, he, m, hm, rfl⟩, htarget⟩
  · rintro (⟨e, he, hname⟩ | ⟨_, ⟨e, he, m, hm, rfl⟩, htarget⟩)
    · exact ⟨e, he, .inl hname⟩
    · exact ⟨e, he, .inr ⟨m, hm, htarget⟩⟩

theorem ofLines_eq_invalid_iff {e : AutomatonError} : ofLines l = .error (.invalid e) ↔
    e = .noFinals ∧ Coherent l ∧ ∀ line ∈ l, (lineRole line).final = false := by
  constructor
  · intro h
    have hcoherent : Coherent l := coherent_of_ofLines (by simp [h]) (by simp [h])
    by_cases hfinal : ∃ e, some e ∈ l.map entryOf? ∧ e.isFinal = true
    · obtain ⟨e, he, hstart⟩ := hcoherent.exists_start
      obtain ⟨b, hb, _⟩ := exists_ofLines hcoherent he hstart hfinal
      rw [hb] at h
      cases h
    · rw [ofLines_eq_noFinals hcoherent hfinal] at h
      refine ⟨(FormatError.invalid.inj (Except.error.inj h)).symm, hcoherent, fun line hline => ?_⟩
      exact Bool.eq_false_iff.mpr fun hmarked =>
        hfinal ((exists_final_iff hcoherent.faultless).mpr ⟨line, hline, hmarked⟩)
  · rintro ⟨rfl, hcoherent, hnone⟩
    refine ofLines_eq_noFinals hcoherent fun hfinal => ?_
    obtain ⟨line, hline, hmarked⟩ := (exists_final_iff hcoherent.faultless).mp hfinal
    rw [hnone line hline] at hmarked
    cases hmarked

/-- Only for want of a final state is a description invalid, and it is so if its lines have no
fault of their own, one marks a start state and none a final one. What is read has no symbol but
those on transitions, and no state but those with lines and those that transitions lead to. -/
theorem parse_invalid_exact (s : List Char) :
    (∀ e, parse s = .error (.invalid e) ↔ e = .noFinals ∧ (∀ line ∈ lines s, Faultless line) ∧
      (lines s).countP (fun line => (lineRole line).start) = 1 ∧
      ∀ line ∈ lines s, (lineRole line).final = false) ∧
    ∀ a, parse s = .ok a → (∀ x, x ∈ a.alphabet ↔ ∃ t ∈ a.transitions, t.symbol = x) ∧
      ∀ q, q ∈ a.states ↔
        (∃ line ∈ lines s, Names line q) ∨ ∃ t ∈ a.transitions, t.target = q := by
  refine ⟨fun e => ?_, fun a ha => ⟨(described_of_parse ha).alphabet, fun q => ?_⟩⟩
  · rw [parse_eq_ofLines, ofLines_eq_invalid_iff]
    exact and_congr_right fun _ => ⟨fun ⟨⟨hl, hone⟩, hfinal⟩ => ⟨hl, hone, hfinal⟩,
      fun ⟨hl, hone, hfinal⟩ => ⟨⟨hl, hone⟩, hfinal⟩⟩
  · exact (ofLines_eq_ok_iff.mp ha).mem_states

example : parse ['-', '>', 'q'] = .error (.invalid .noFinals) := by decide

end Automaton
end FormalLanguage
