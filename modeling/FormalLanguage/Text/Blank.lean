import FormalLanguage.Text.CodeRange

/-! Blank characters and trimming.

A character is blank if it has the Unicode property `White_Space`. `trim` removes
the blanks at both ends; `trimmed_trim` says that none is left there and
`trim_eq_self` that a text without any is left alone, so trimming twice is
trimming once. -/
namespace FormalLanguage.Text

def blankRanges : CodeRanges :=
  [(0x09, 0x0D), (0x20, 0x20), (0x85, 0x85), (0xA0, 0xA0), (0x1680, 0x1680), (0x2000, 0x200A),
    (0x2028, 0x2029), (0x202F, 0x202F), (0x205F, 0x205F), (0x3000, 0x3000)]

def isBlank (c : Char) : Bool := blankRanges.contains c

def trimStart (s : List Char) : List Char := s.dropWhile isBlank

def trimEnd (s : List Char) : List Char := (s.reverse.dropWhile isBlank).reverse

def trim (s : List Char) : List Char := trimEnd (trimStart s)

/-- Nothing but blanks, or nothing at all. -/
def isBlankText (s : List Char) : Bool := (trim s).isEmpty

/-- No blank at either end. -/
structure Trimmed (s : List Char) : Prop where
  head : ∀ c ∈ s.head?, isBlank c = false
  last : ∀ c ∈ s.getLast?, isBlank c = false

theorem head?_dropWhile_isBlank {s : List Char} {c : Char} (h : c ∈ (s.dropWhile isBlank).head?) :
    isBlank c = false := by
  have := List.head?_dropWhile_not isBlank s
  rw [Option.mem_def.mp h] at this
  simpa using this

theorem dropWhile_isBlank_eq_self {s : List Char} (h : ∀ c ∈ s.head?, isBlank c = false) :
    s.dropWhile isBlank = s := by
  cases s with
  | nil => rfl
  | cons c rest => simp [h c rfl]

/-- Trimming the end does not touch the first character, unless it removes everything. -/
theorem head?_trimEnd {s : List Char} {c : Char} (h : c ∈ (trimEnd s).head?) : c ∈ s.head? := by
  have hsplit : s.reverse.takeWhile isBlank ++ s.reverse.dropWhile isBlank = s.reverse :=
    List.takeWhile_append_dropWhile
  have : s = trimEnd s ++ (s.reverse.takeWhile isBlank).reverse := by
    rw [trimEnd, ← List.reverse_append, hsplit, List.reverse_reverse]
  rw [this, List.head?_append, Option.mem_def.mp h]
  rfl

theorem trimmed_trim (s : List Char) : Trimmed (trim s) where
  head _ hc := head?_dropWhile_isBlank (head?_trimEnd hc)
  last c hc := by
    rw [trim, trimEnd, List.getLast?_reverse] at hc
    exact head?_dropWhile_isBlank hc

theorem trim_eq_self {s : List Char} (h : Trimmed s) : trim s = s := by
  have hlast : ∀ c ∈ s.reverse.head?, isBlank c = false := by
    simpa [List.head?_reverse] using h.last
  rw [trim, trimStart, dropWhile_isBlank_eq_self h.head, trimEnd, dropWhile_isBlank_eq_self hlast,
    List.reverse_reverse]

theorem trimmed_nil : Trimmed [] := ⟨nofun, nofun⟩

end FormalLanguage.Text
