import FormalLanguage.Proofs.Text
import FormalLanguage.Text.Width

/-! How wide texts are that are put together.

Characters can join what stands after them, and some that do take back a column that
was counted already. They never take back more than there is: what the beginning of a
text may still cost it (`owed`) is covered by its columns (`covered_measure`).

A `Lone` character joins nothing and is joined by nothing, so a text is as wide as the
parts before and behind it and the character itself (`width_append_cons`). -/
namespace FormalLanguage.Text

variable {c : Char} {s t : List Char} {m : Measure}

/-! ### Columns that are taken back -/

/-- The columns that can be taken back where a text begins so. -/
def EmojiHead.owed : EmojiHead → Int
  | .joinedIndicator => 1
  | .joinedPairsAndIndicator => 1
  | _ => 0

def LetterHead.owed : LetterHead → Int
  | .subscriptable => 1
  | .tifinaghJoinerAndConsonant => 1
  | _ => 0

theorem EmojiHead.owed_of_ofChar? {head : EmojiHead} (h : ofChar? c = some head) :
    head.owed = 0 := by
  unfold ofChar? at h
  split_ifs at h <;> cases h <;> rfl

theorem EmojiHead.owed_of_tag? {head : EmojiHead} {digits letters : Nat}
    (h : tag? c digits letters = some head) : head.owed = 0 := by
  unfold tag? at h
  split_ifs at h <;> cases h <;> rfl

theorem EmojiHead.owed_of_before? {head : EmojiHead} {columns : Int} {next? : Option EmojiHead}
    (h : before? c head = some (columns, next?)) :
    0 ≤ head.owed + columns ∧ ∀ next ∈ next?, next.owed ≤ head.owed + columns := by
  cases head with
  | joinedTags digits letters =>
    obtain ⟨next, hnext, heq⟩ := Option.map_eq_some_iff.mp h
    obtain ⟨rfl, rfl⟩ := Prod.mk.inj heq
    have hnone : (joinedTags digits letters).owed = 0 := rfl
    simp [hnone, owed_of_tag? hnext]
  | _ =>
    simp only [before?] at h
    split_ifs at h <;> cases h <;> simp [owed]

/-- What is put below the line was not counted as nothing before. -/
theorem LetterHead.owed_of_ofChar? {head : LetterHead} (h : ofChar? c = some head) :
    head.owed ≤ charWidth c := by
  unfold ofChar? at h
  split_ifs at h with _ hsubscript
  · cases h
    simp [owed]
  · have hapart : ∀ r ∈ subscriptableRanges, ∀ z ∈ zeroWidthRanges, r.2 < z.1 ∨ z.2 < r.1 := by
      decide +kernel
    have hwidth : zeroWidthRanges.contains c = false := by
      rw [← Bool.not_eq_true]
      intro hzero
      obtain ⟨r, hr, hlow, hhigh⟩ := CodeRanges.exists_of_contains hsubscript
      obtain ⟨z, hz, hlow', hhigh'⟩ := CodeRanges.exists_of_contains hzero
      have := hapart r hr z hz
      omega
    cases h
    rw [charWidth, hwidth]
    split_ifs <;> simp_all [owed]
  all_goals cases h; simp [owed]

theorem LetterHead.owed_of_join? {head : LetterHead} {columns : Int} {next? : Option LetterHead}
    (h : join? c head = some (columns, next?)) :
    0 ≤ head.owed + columns ∧ ∀ next ∈ next?, next.owed ≤ head.owed + columns := by
  cases head <;> simp only [join?] at h <;> split_ifs at h <;> cases h <;> simp [owed]

theorem LetterHead.owed_of_behind? {head next : LetterHead} (h : behind? c head = some next) :
    next.owed = head.owed := by
  cases head <;> simp only [behind?] at h <;> split_ifs at h <;> cases h <;> rfl

theorem LetterHead.owed_of_before? {head : LetterHead} {columns : Int} {next? : Option LetterHead}
    (h : before? c head = some (columns, next?)) :
    0 ≤ head.owed + columns ∧ ∀ next ∈ next?, next.owed ≤ head.owed + columns := by
  unfold before? at h
  split at h
  · next next hnext =>
    obtain ⟨rfl, rfl⟩ := Prod.mk.inj (Option.some.inj h)
    have howed := owed_of_behind? hnext
    refine ⟨?_, fun other hother => ?_⟩
    · cases head <;> simp [owed]
    · rw [← Option.some.inj hother, howed]
      omega
  · exact owed_of_join? h

/-- There are as many columns as the beginning can take back. -/
structure Measure.Covered (m : Measure) : Prop where
  columns_nonneg : 0 ≤ m.columns
  emoji_owed : ∀ head ∈ m.emoji?, head.owed ≤ m.columns
  letter_owed : ∀ head ∈ m.letter?, head.owed ≤ m.columns

theorem Measure.Covered.add (h : m.Covered) (c : Char) : (m.add c).Covered := by
  have hcolumns := h.columns_nonneg
  have hfresh : ∀ head ∈ EmojiHead.ofChar? c, head.owed = 0 := fun _ => EmojiHead.owed_of_ofChar?
  unfold Measure.add
  split
  · next columns emoji? hjoins =>
    obtain ⟨head, hhead, hbefore⟩ := Option.bind_eq_some_iff.mp hjoins
    have howed := h.emoji_owed head hhead
    obtain ⟨hpaid, hnext⟩ := EmojiHead.owed_of_before? hbefore
    refine ⟨by dsimp only; omega, fun next hmem => ?_, nofun⟩
    have := hnext next hmem
    dsimp only
    omega
  · split
    · next columns letter? hjoins =>
      obtain ⟨head, hhead, hbefore⟩ := Option.bind_eq_some_iff.mp hjoins
      have howed := h.letter_owed head hhead
      obtain ⟨hpaid, hnext⟩ := LetterHead.owed_of_before? hbefore
      refine ⟨by dsimp only; omega, fun next hmem => ?_, fun next hmem => ?_⟩
      · have := hfresh next hmem
        dsimp only
        omega
      · have := hnext next hmem
        dsimp only
        omega
    · refine ⟨by dsimp only; omega, fun next hmem => ?_, fun next hmem => ?_⟩
      · have := hfresh next hmem
        dsimp only
        omega
      · have := LetterHead.owed_of_ofChar? hmem
        dsimp only
        omega

theorem covered_measure (s : List Char) : (measure s).Covered := by
  induction s with
  | nil => exact ⟨Int.le_refl 0, nofun, nofun⟩
  | cons c s ih => exact ih.add c

/-! ### Characters that stand alone -/

/-- A narrow character that joins nothing and that nothing joins. -/
structure Lone (c : Char) : Prop where
  joins_no_emoji : ∀ head, EmojiHead.before? c head = none
  joins_no_letter : ∀ head, LetterHead.before? c head = none
  no_emoji : EmojiHead.ofChar? c = none
  no_letter : LetterHead.ofChar? c = none
  narrow : charWidth c = 1

theorem measure_lone (hc : Lone c) (t : List Char) :
    measure (c :: t) = ⟨(measure t).columns + 1, none, none⟩ := by
  have hemoji : (measure t).emoji?.bind (EmojiHead.before? c) = none := by
    simp [hc.joins_no_emoji]
  have hletter : (measure t).letter?.bind (LetterHead.before? c) = none := by
    simp [hc.joins_no_letter]
  rw [measure, Measure.add, hemoji, hletter, hc.no_emoji, hc.no_letter, hc.narrow]
  rfl

/-- The measure of a text that takes `k` more columns and begins in the same way. -/
def Measure.shift (k : Int) (m : Measure) : Measure := ⟨m.columns + k, m.emoji?, m.letter?⟩

theorem Measure.add_shift (k : Int) (m : Measure) (c : Char) :
    (m.shift k).add c = (m.add c).shift k := by
  unfold Measure.add Measure.shift
  dsimp only
  split
  · simp [Int.add_right_comm]
  · split <;> simp [Int.add_right_comm]

/-- Before a character that stands alone, a text is measured as if it ended there. -/
theorem measure_append_lone (hc : Lone c) (s t : List Char) :
    measure (s ++ c :: t) = (measure s).shift ((measure t).columns + 1) := by
  induction s with
  | nil =>
    rw [List.nil_append, measure_lone hc, measure, Measure.shift, Int.zero_add]
  | cons d s ih => rw [List.cons_append, measure, measure, ih, Measure.add_shift]

theorem width_nil : width [] = 0 := rfl

theorem width_append_cons (hc : Lone c) (s t : List Char) :
    width (s ++ c :: t) = width s + 1 + width t := by
  have hs := (covered_measure s).columns_nonneg
  have ht := (covered_measure t).columns_nonneg
  rw [width, measure_append_lone hc, width, width]
  show ((measure s).columns + ((measure t).columns + 1)).toNat = _
  omega

theorem width_cons (hc : Lone c) (t : List Char) : width (c :: t) = width t + 1 := by
  rw [← List.nil_append (c :: t), width_append_cons hc, width_nil]
  omega

/-- Behind a text, characters that stand alone take a column each. -/
theorem width_append_of_lone (ht : ∀ c ∈ t, Lone c) (s : List Char) :
    width (s ++ t) = width s + t.length := by
  induction t generalizing s with
  | nil => rw [List.append_nil, List.length_nil, Nat.add_zero]
  | cons c t ih =>
    obtain ⟨hc, ht⟩ := List.forall_mem_cons.mp ht
    rw [List.append_cons, ih ht, width_append_cons hc, width_nil, List.length_cons]
    omega

theorem width_of_lone (ht : ∀ c ∈ t, Lone c) : width t = t.length :=
  (width_append_of_lone ht []).trans (Nat.zero_add _)

/-- In none of the sets of characters that join others or are joined. -/
def isLone (c : Char) : Bool :=
  charWidth c == 1 && (LetterHead.ofChar? c).isNone &&
    [isJoiner, isRegionalIndicator, isSkinTone, isKeycap, isTextSelector, isEmojiSelector,
      isTagLetter, isTagDigit, isTaggedFlag, isTagEnd, isPicture, isStyled, isBody,
      (lamRanges.contains ·), isHiddenMark, isHebrewAlef, isBugineseVowelI, isBugineseA,
      isTifinaghJoiner, isTifinaghConsonant, isFirstLisuTone, isOrkhonEc,
      isSubscriptSign].all (! · c)

theorem lone_of_isLone (h : isLone c = true) : Lone c := by
  simp only [isLone, Bool.and_eq_true, beq_iff_eq, Option.isNone_iff_eq_none, Bool.not_eq_true',
    List.all_cons, List.all_nil, and_true] at h
  obtain ⟨⟨hwidth, hletter⟩, hsets⟩ := h
  refine ⟨fun head => ?_, fun head => ?_, ?_, hletter, hwidth⟩
  · cases head <;> simp [EmojiHead.before?, EmojiHead.tag?, narrowsAsText, hsets]
  · cases head <;> simp [LetterHead.before?, LetterHead.behind?, LetterHead.join?, hwidth, hsets]
  · simp [EmojiHead.ofChar?, hsets]

end FormalLanguage.Text
