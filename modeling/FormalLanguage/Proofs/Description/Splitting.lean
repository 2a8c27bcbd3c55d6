import FormalLanguage.Proofs.Description.TopLevel

/-! The one way of taking a text apart.

A `Split` is a text taken apart, with the characters that were removed. It is
`TopLevel` if these are separators that count where they stand in the text, while
none counts in a part that is read on its own. Every text has such a split, and
`splitTopLevel` gives the parts of it, whatever quotes and braces are left open or
closed too often (`splitTopLevel_exact`). The reason is that a reader stands at the
top before and behind each separator that counts, so the parts can be read
independently of each other. -/
namespace FormalLanguage.Description

/-- The part before the first separator, and each separator with the part behind it. -/
structure Split where
  first : List Char
  rest : List (Char × List Char)

variable {separator : Char → Bool} {s u v : List Char} {c : Char}

namespace Split

def text (d : Split) : List Char := d.first ++ d.rest.flatMap fun (c, part) => c :: part

def parts (d : Split) : List (List Char) := d.first :: d.rest.map Prod.snd

/-- What is removed are separators that count where they stand, and no part has one. -/
structure TopLevel (separator : Char → Bool) (d : Split) : Prop where
  removed : ∀ before c part after, d.rest = before ++ (c, part) :: after →
    separator c = true ∧ (Nesting.top.after (text ⟨d.first, before⟩)).isTop = true
  clear : ∀ part ∈ d.parts, Clear separator .top part

theorem text_nil (first : List Char) : text ⟨first, []⟩ = first := List.append_nil first

theorem text_cons (first : List Char) (c : Char) (part : List Char)
    (rest : List (Char × List Char)) :
    text ⟨first, (c, part) :: rest⟩ = first ++ c :: text ⟨part, rest⟩ := rfl

theorem topLevel_nil (h : Clear separator .top s) : TopLevel separator ⟨s, []⟩ where
  removed before c part after hrest := absurd hrest (by simp)
  clear part hpart := List.mem_singleton.mp hpart ▸ h

end Split

/-! ### From one separator to the next -/

/-- Where a text is cut, the part before the cut is the first one, and the text behind it has the
others. -/
theorem splitTopLevel_of_cut (h : cutTopLevel? separator s = some (u, v)) :
    splitTopLevel separator s = u :: splitTopLevel separator v := by
  obtain ⟨c, rfl, hc, hclear, htop⟩ := cutFrom_eq_some h
  exact splitTopLevel_separator ⟨hclear, Nesting.eq_top htop⟩ hc

theorem cutTopLevel?_eq_none_iff_single :
    cutTopLevel? separator s = none ↔ ∃ part, splitTopLevel separator s = [part] := by
  refine ⟨fun h => ⟨s, splitTopLevel_of_clear (cutTopLevel?_eq_none_iff.mp h)⟩, ?_⟩
  rintro ⟨part, hpart⟩
  cases hcut : cutTopLevel? separator s with
  | none => rfl
  | some cut =>
    rw [splitTopLevel_of_cut hcut] at hpart
    cases hpart

/-- A separator is neither a quote nor a brace, so it leaves a reader at the top where it is. -/
theorem next_separator (hquote : separator '"' = false) (hopen : separator '{' = false)
    (hclose : separator '}' = false) (c : Char) (hc : separator c = true) :
    Nesting.top.next c = .top := by
  have hne {b : Char} (hb : separator b = false) : c ≠ b := by
    rintro rfl
    rw [hc] at hb
    cases hb
  simp [Nesting.next, Nesting.top, hne hquote, hne hopen, hne hclose]

section Separator
variable (hnext : ∀ c, separator c = true → Nesting.top.next c = .top)
include hnext

theorem after_separator (hu : Nesting.top.after u = .top) (hc : separator c = true)
    (v : List Char) : Nesting.top.after (u ++ c :: v) = Nesting.top.after v := by
  rw [Nesting.after_append, hu]
  show (Nesting.top.next c).after v = _
  rw [hnext c hc]

theorem Split.topLevel_cons_iff {part : List Char} {rest : List (Char × List Char)} :
    TopLevel separator ⟨u, (c, part) :: rest⟩ ↔
      Passes separator u ∧ separator c = true ∧ TopLevel separator ⟨part, rest⟩ := by
  constructor
  · intro h
    obtain ⟨hc, htop⟩ := h.removed [] c part rest rfl
    have hu : Nesting.top.after u = .top := by
      rw [text_nil] at htop
      exact Nesting.eq_top htop
    obtain ⟨hclear, hothers⟩ := List.forall_mem_cons.mp h.clear
    refine ⟨⟨hclear, hu⟩, hc, fun before d p after hrest => ?_, hothers⟩
    have hrest : rest = before ++ (d, p) :: after := hrest
    have hd := h.removed ((c, part) :: before) d p after (congrArg ((c, part) :: ·) hrest)
    rw [text_cons, after_separator hnext hu hc] at hd
    exact hd
  · rintro ⟨hu, hc, h⟩
    refine ⟨fun before d p after hrest => ?_, List.forall_mem_cons.mpr ⟨hu.clear, h.clear⟩⟩
    cases before with
    | nil =>
      obtain ⟨hhead, _⟩ := List.cons.inj hrest
      obtain ⟨rfl, _⟩ := Prod.mk.inj hhead
      rw [text_nil, hu.after_eq]
      exact ⟨hc, rfl⟩
    | cons e before =>
      obtain ⟨rfl, hbefore⟩ := List.cons.inj hrest
      rw [text_cons, after_separator hnext hu.after_eq hc]
      exact h.removed before d p after hbefore

/-! ### The split of a text -/

theorem Split.TopLevel.splitTopLevel_text {d : Split} (h : d.TopLevel separator) :
    splitTopLevel separator d.text = d.parts := by
  obtain ⟨first, rest⟩ := d
  induction rest generalizing first with
  | nil =>
    rw [text_nil, splitTopLevel_of_clear (h.clear first (List.mem_cons_self ..))]
    rfl
  | cons e rest ih =>
    obtain ⟨c, part⟩ := e
    obtain ⟨hfirst, hc, hrest⟩ := (topLevel_cons_iff hnext).mp h
    rw [text_cons, splitTopLevel_separator hfirst hc, ih part hrest]
    rfl

/-- By recursion on the text behind the first cut. -/
theorem exists_split (s : List Char) : ∃ d : Split, d.text = s ∧ d.TopLevel separator := by
  cases hcut : cutTopLevel? separator s with
  | none =>
    exact ⟨⟨s, []⟩, Split.text_nil s, Split.topLevel_nil (cutTopLevel?_eq_none_iff.mp hcut)⟩
  | some cut =>
    obtain ⟨c, hs, hc, hclear, htop⟩ := cutFrom_eq_some hcut
    have hshorter : cut.2.length < s.length := by
      rw [hs, List.length_append, List.length_cons]
      omega
    obtain ⟨d, htext, hd⟩ := exists_split cut.2
    refine ⟨⟨cut.1, (c, d.first) :: d.rest⟩, ?_, ?_⟩
    · rw [Split.text_cons, hs, ← htext]
    · exact (Split.topLevel_cons_iff hnext).mpr ⟨⟨hclear, Nesting.eq_top htop⟩, hc, hd⟩
termination_by s.length

end Separator

/-- The parts of a text are those of its one split at separators that count, none of which is left
in a part. A text of one part is not cut, and any other is cut behind the first of its parts and
goes on with the others. -/
theorem splitTopLevel_exact (hquote : separator '"' = false) (hopen : separator '{' = false)
    (hclose : separator '}' = false) (s : List Char) :
    (∀ parts, splitTopLevel separator s = parts ↔
        ∃ d : Split, d.text = s ∧ d.parts = parts ∧ d.TopLevel separator) ∧
      (cutTopLevel? separator s = none ↔ ∃ part, splitTopLevel separator s = [part]) ∧
      ∀ first rest, cutTopLevel? separator s = some (first, rest) →
        splitTopLevel separator s = first :: splitTopLevel separator rest := by
  have hnext := next_separator hquote hopen hclose
  refine ⟨fun parts => ⟨fun h => ?_, ?_⟩, cutTopLevel?_eq_none_iff_single,
    fun first rest => splitTopLevel_of_cut⟩
  · obtain ⟨d, rfl, hd⟩ := exists_split hnext s
    exact ⟨d, rfl, (hd.splitTopLevel_text hnext).symm.trans h, hd⟩
  · rintro ⟨d, rfl, rfl, hd⟩
    exact hd.splitTopLevel_text hnext

/-- A comma in a quotation, a brace that nothing opened, a comma in braces, and two that count. -/
def guarded : List Char := ['"', ',', '"', '}', ',', '{', 'x', ',', 'y', '}', ',', 'z']

theorem guarded_split :
    (∃ d : Split, d.text = guarded ∧
      d.parts = [['"', ',', '"', '}'], ['{', 'x', ',', 'y', '}'], ['z']] ∧
        d.TopLevel (· = ',')) ∧
      splitTopLevel (· = ',') guarded =
        ['"', ',', '"', '}'] :: splitTopLevel (· = ',') ['{', 'x', ',', 'y', '}', ',', 'z'] := by
  obtain ⟨hsplit, _, hcut⟩ :=
    @splitTopLevel_exact (· = ',') (by decide) (by decide) (by decide) guarded
  exact ⟨(hsplit _).mp (by decide), hcut _ _ (by decide)⟩

end FormalLanguage.Description
