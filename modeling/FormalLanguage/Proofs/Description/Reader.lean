import FormalLanguage.Description.Reader
import FormalLanguage.Proofs.Description.TopLevel
import FormalLanguage.Proofs.Failure
import Mathlib.Data.List.Infix

/-! Reading well-formed lines.

What the reader makes of a name, a transition and a line that are written as they
should be, with any blanks around them. It takes every name that is `Legible`, as
it stands. A name is `Unbroken` if moreover its braces keep it in one piece wherever
it stands, and they are all closed again. -/
namespace FormalLanguage.Description
open Text

variable {u v s b b' : List Char} {q p : State} {x : Symbol}

/-! ### Names -/

/-- A name that is taken as it stands: it has neither a quote nor a blank outside of braces. -/
structure Legible (name : List Char) : Prop where
  nonempty : name ≠ []
  unquoted : '"' ∉ name
  unparted : Clear isBlank .top name

/-- A name that is read in one piece: no blank, colon or comma outside of braces, and no brace
left open. -/
structure Unbroken (name : List Char) : Prop where
  nonempty : name ≠ []
  unquoted : '"' ∉ name
  oneLine : '\n' ∉ name
  shielded : ∀ u c v, name = u ++ c :: v → depthAfter u = 0 → isBlank c = false ∧ c ≠ ':' ∧ c ≠ ','
  closed : depthAfter name = 0

theorem Unbroken.passes {separator : Char → Bool} (h : Unbroken s)
    (hseparator : ∀ c, separator c = true → isBlank c = true ∨ c = ':' ∨ c = ',') :
    Passes separator s := by
  refine ⟨(clear_top_iff h.unquoted).mpr fun u c v hs hdepth => ?_, ?_⟩
  · obtain ⟨hblank, hcolon, hcomma⟩ := h.shielded u c v hs hdepth
    rw [← Bool.not_eq_true]
    intro hc
    rcases hseparator c hc with hc | hc | hc
    · rw [hc] at hblank
      exact absurd hblank (by decide)
    · exact hcolon hc
    · exact hcomma hc
  · rw [after_top_of_unquoted h.unquoted, h.closed]
    rfl

theorem Unbroken.passes_blank (h : Unbroken s) : Passes isBlank s := h.passes fun _ => .inl

theorem Unbroken.passes_colon (h : Unbroken s) : Passes (· = ':') s :=
  h.passes fun _ hc => .inr (.inl (of_decide_eq_true hc))

theorem Unbroken.passes_comma (h : Unbroken s) : Passes (· = ',') s :=
  h.passes fun _ hc => .inr (.inr (of_decide_eq_true hc))

theorem Unbroken.legible (h : Unbroken s) : Legible s :=
  ⟨h.nonempty, h.unquoted, h.passes_blank.clear⟩

/-- Whether a name is unbroken is found by scanning it. -/
theorem unbroken_iff : Unbroken s ↔ (s ≠ [] ∧ '"' ∉ s ∧ '\n' ∉ s) ∧
    Clear (fun c => isBlank c || c = ':' || c = ',') .top s ∧ depthAfter s = 0 := by
  refine ⟨fun h => ?_, fun ⟨⟨hne, hquote, hline⟩, hclear, hclosed⟩ => ?_⟩
  · have hpasses : Passes (fun c => isBlank c || c = ':' || c = ',') s := h.passes fun c hc => by
      simpa [or_assoc] using hc
    exact ⟨⟨h.nonempty, h.unquoted, h.oneLine⟩, hpasses.clear, h.closed⟩
  · refine ⟨hne, hquote, hline, fun u c v hs hdepth => ?_, hclosed⟩
    simpa [and_assoc] using (clear_top_iff hquote).mp hclear u c v hs hdepth

instance (name : List Char) : Decidable (Unbroken name) := decidable_of_iff' _ unbroken_iff

theorem readName_between (hu : Blank u) (hq : Legible q.chars) (hv : Blank v) :
    readName (u ++ q.chars ++ v) = .ok q := by
  have htrim : trim (u ++ q.chars ++ v) = q.chars := trim_between hu q.trimmed hv
  have hempty : q.chars.isEmpty = false := List.isEmpty_eq_false_iff.mpr hq.nonempty
  rw [readName, htrim, hempty]
  simp [hq.unquoted, cutTopLevel?_eq_none_iff.mpr hq.unparted, State.ofChars_chars]

theorem Legible.exists_last (hq : Legible q.chars) : ∃ c ∈ q.chars.getLast?, isBlank c = false := by
  obtain ⟨c, hc⟩ := Option.isSome_iff_exists.mp (List.getLast?_isSome.mpr hq.nonempty)
  exact ⟨c, hc, q.trimmed.last c hc⟩

/-! ### Definitions -/

theorem lookup_marker : ∀ m ∈ markers, markers.lookup m.1 = some m.2 := by decide

theorem marker_plain : ∀ m ∈ markers, Plain isBlank m.1 := by decide

theorem marker_prefix : ∀ m ∈ markers, ['-', '>'] <+: m.1 ∨ ['*'] <+: m.1 := by decide

theorem marker_head : ∀ m ∈ markers, ∃ c ∈ m.1.head?, isBlank c = false := by
  intro m hm
  have hsome : m.1.head?.isSome = true := by
    revert m
    decide
  obtain ⟨c, hc⟩ := Option.isSome_iff_exists.mp hsome
  exact ⟨c, hc, (marker_plain m hm c (List.mem_of_head? hc)).1⟩

/-- A marker is separated from its name by the first blank, whatever the name begins with. -/
theorem readDefinition_marked {marker : List Char} {role : Role}
    (hmarker : (marker, role) ∈ markers) (hu : Blank u) (hb : Blank b) (hne : b ≠ [])
    (hq : Legible q.chars) (hv : Blank v) :
    readDefinition (u ++ (marker ++ b ++ q.chars) ++ v) = .ok (role, q) := by
  have htrim : trim (u ++ (marker ++ b ++ q.chars) ++ v) = marker ++ b ++ q.chars :=
    trim_between hu (trimmed_around (marker_head _ hmarker) hq.exists_last b) hv
  cases b with
  | nil => exact absurd rfl hne
  | cons c b =>
    have hpasses : Passes isBlank marker := (marker_plain _ hmarker).passes
    have hcut : cutTopLevel? isBlank (marker ++ c :: b ++ q.chars) =
        some (marker, b ++ q.chars) := by
      rw [List.append_assoc]
      exact cutTopLevel?_separator hpasses (hb c (List.mem_cons_self ..)) _
    have hname : readName (b ++ q.chars) = .ok q := by
      have hblank : Blank b := fun d hd => hb d (List.mem_cons_of_mem _ hd)
      simpa using readName_between hblank hq .nil
    simp only [readDefinition, htrim, hcut, lookup_marker _ hmarker, hname]
    rfl

theorem isPrefixOf?_eq_none {m s : List Char} (h : ¬ m <+: s) : m.isPrefixOf? s = none :=
  Option.eq_none_iff_forall_ne_some.mpr fun rest hrest =>
    h ⟨rest, List.append_eq_of_isPrefixOf?_eq_some hrest⟩

/-- The longer markers come first, so a marker that stands right before its name is found, if the
name does not make a longer one of it. -/
theorem gluedMarker?_append {marker : List Char} {role : Role} (hmarker : (marker, role) ∈ markers)
    (harrow : ¬ ['-', '>'] <+: s) (hstar : ¬ ['*'] <+: s) :
    gluedMarker? (marker ++ s) = some (role, s) := by
  have harrow' : ['-', '>'].isPrefixOf? s = none := isPrefixOf?_eq_none harrow
  have hstar' : ['*'].isPrefixOf? s = none := isPrefixOf?_eq_none hstar
  simp only [markers, List.mem_cons, Prod.mk.injEq, List.not_mem_nil, or_false] at hmarker
  rcases hmarker with ⟨rfl, rfl⟩ | ⟨rfl, rfl⟩ | ⟨rfl, rfl⟩ | ⟨rfl, rfl⟩
  · rfl
  · rfl
  · simp [gluedMarker?, markers, List.isPrefixOf?, hstar']
  · simp [gluedMarker?, markers, List.isPrefixOf?, harrow']

theorem readDefinition_glued {marker : List Char} {role : Role} (hmarker : (marker, role) ∈ markers)
    (hu : Blank u) (hq : Legible q.chars) (hv : Blank v) (harrow : ¬ ['-', '>'] <+: q.chars)
    (hstar : ¬ ['*'] <+: q.chars) :
    readDefinition (u ++ (marker ++ q.chars) ++ v) = .ok (role, q) := by
  have htrimmed : Trimmed (marker ++ q.chars) := by
    simpa using trimmed_around (marker_head _ hmarker) hq.exists_last []
  have hcut : cutTopLevel? isBlank (marker ++ q.chars) = none :=
    cutTopLevel?_eq_none_iff.mpr ((marker_plain _ hmarker).passes.append_clear hq.unparted)
  have hname : readName q.chars = .ok q := by
    simpa using readName_between .nil hq .nil
  simp only [readDefinition, trim_between hu htrimmed hv, hcut,
    gluedMarker?_append hmarker harrow hstar, hname]
  rfl

/-- A name without a marker may not begin with one. -/
theorem readDefinition_bare (hu : Blank u) (hq : Legible q.chars) (hv : Blank v)
    (harrow : ¬ ['-', '>'] <+: q.chars) (hstar : ¬ ['*'] <+: q.chars) :
    readDefinition (u ++ q.chars ++ v) = .ok (⟨false, false⟩, q) := by
  have hmarker : gluedMarker? q.chars = none := by
    rw [gluedMarker?, List.findSome?_eq_none_iff]
    intro m hm
    rw [Option.map_eq_none_iff]
    refine isPrefixOf?_eq_none fun hprefix => ?_
    rcases marker_prefix m hm with h | h
    · exact harrow (h.trans hprefix)
    · exact hstar (h.trans hprefix)
  have hname : readName q.chars = .ok q := by
    simpa using readName_between .nil hq .nil
  simp only [readDefinition, trim_between hu q.trimmed hv, cutTopLevel?_eq_none_iff.mpr hq.unparted,
    hmarker, hname]
  rfl

/-! ### Transitions -/

theorem readQuoted?_quoted (hs : '"' ∉ s) (rest : List Char) :
    readQuoted? ('"' :: s ++ '"' :: rest) = some (s, rest) := by
  have hinside : ∀ c ∈ s, decide (c ≠ '"') = true := fun c hc =>
    decide_eq_true fun he => hs (he ▸ hc)
  rw [List.cons_append, readQuoted?, List.dropWhile_append_of_pos hinside,
    List.takeWhile_append_of_pos hinside]
  simp

/-- A transition with blanks around its symbol, its arrow and its target. -/
theorem readMove_between {m m' : List Char} (hu : Blank u) (hb : Blank b) (hb' : Blank b')
    (hm : Blank m) (hm' : Blank m') (hv : Blank v) (hx : '"' ∉ x.chars) (hp : Legible p.chars) :
    readMove (u ++ ('"' :: (b ++ x.chars ++ b') ++ '"' :: (m ++ '-' :: '>' :: (m' ++ p.chars))) ++
      v) = .ok (x, p) := by
  have hinside : '"' ∉ b ++ x.chars ++ b' := notMem_between hb hx hb' (by decide)
  have htrim : trim (u ++ ('"' :: (b ++ x.chars ++ b') ++
      '"' :: (m ++ '-' :: '>' :: (m' ++ p.chars))) ++ v) =
      '"' :: (b ++ x.chars ++ b') ++ '"' :: (m ++ '-' :: '>' :: (m' ++ p.chars)) := by
    refine trim_between hu ?_ hv
    have h := trimmed_around (s := ['"']) ⟨'"', rfl, by decide⟩ hp.exists_last
      ((b ++ x.chars ++ b') ++ '"' :: (m ++ '-' :: '>' :: m'))
    simpa using h
  have hsymbol : Symbol.ofChars (b ++ x.chars ++ b') = x := by
    have h : Text.trim (b ++ x.chars ++ b') = x.chars := trim_between hb x.trimmed hb'
    exact Symbol.toLabel_injective (Label.chars_injective h)
  have harrow : trimStart (m ++ '-' :: '>' :: (m' ++ p.chars)) = '-' :: '>' :: (m' ++ p.chars) := by
    rw [trimStart_append hm]
    exact trimStart_eq_self fun c hc => by
      rw [← Option.some.inj hc]
      decide
  have htarget : isBlankText (m' ++ p.chars) = false := by
    obtain ⟨c, hc, hnonblank⟩ := hp.exists_last
    exact isBlankText_eq_false (List.mem_append_right _ (List.mem_of_getLast? hc)) hnonblank
  have hname : readName (m' ++ p.chars) = .ok p := by
    simpa using readName_between hm' hp .nil
  simp only [readMove, htrim, readQuoted?_quoted hinside, harrow, List.isPrefixOf?,
    beq_self_eq_true, if_true, htarget, Bool.false_eq_true, if_false, hname, hsymbol]
  rfl

theorem readMoves_intercalate {segments : List (List Char)} {moves : List (Symbol × State)}
    (hne : segments ≠ []) (hclear : ∀ s ∈ segments, Clear (· = ',') .top s)
    (hafter : ∀ s ∈ segments.dropLast, Nesting.top.after s = .top)
    (hread : segments.mapM readMove = .ok moves)
    (hblank : isBlankText (List.intercalate [','] segments) = false) :
    readMoves (List.intercalate [','] segments) = .ok moves := by
  have hcomma : decide (',' = ',') = true := rfl
  rw [readMoves, hblank, if_neg Bool.false_ne_true,
    splitTopLevel_intercalate hne hcomma hclear hafter]
  exact hread

/-! ### Lines -/

/-- A line whose parts are read declares its state and then connects its transitions. -/
theorem readLine_of_parts {line definition body : List Char} {role : Role}
    {moves : List (Symbol × State)} (d : Draft) (hline : isBlankText line = false)
    (hcut : cutAtColon line = (definition, body))
    (hdefinition : readDefinition definition = .ok (role, q))
    (hmoves : readMoves body = .ok moves) :
    readLine d line = (d.declare role q).map fun d => moves.foldl (Draft.connect q) d := by
  rw [readLine, hline, if_neg Bool.false_ne_true, hcut]
  show (readDefinition definition >>= fun r => d.declare r.1 r.2 >>= fun d =>
    readMoves body >>= fun moves => pure (moves.foldl (Draft.connect r.2) d)) = _
  rw [hdefinition, hmoves]
  show (d.declare role q >>= fun d => pure (moves.foldl (Draft.connect q) d)) = _
  cases d.declare role q <;> rfl

end FormalLanguage.Description
