/-! Draws from a source of numbers.

A source is a sequence of natural numbers and the place up to which it is used.
What is drawn depends on the sequence alone, so a statement about all sequences is
one about everything that can be drawn. -/
namespace FormalLanguage.Sampling

structure Source where
  number : Nat → Nat
  used : Nat

abbrev Draw := StateM Source

def draw : Draw Nat := fun s => (s.number s.used, { s with used := s.used + 1 })

/-- A number below `n`, or zero if there is none. -/
def below (n : Nat) : Draw Nat := return (← draw) % n

/-- A number between `least` and `most`. -/
def between (least most : Nat) : Draw Nat := return least + (← below (most - least + 1))

def coin : Draw Bool := return (← below 2) = 1

/-- The number of points from zero to one, one excluded, between which a chance is decided. -/
def resolution : Nat := 1000000000000

/-- Whether a point drawn evenly from zero to one, one excluded, is below `p`. So at zero or less it
never is, and at one or more it always is. A chance is a rational number, so the infinite
floating-point values have no counterpart. They would decide a draw as zero and one do. -/
def chance (p : Rat) : Draw Bool := return mkRat (← below resolution) resolution < p

/-- The elements that a draw each decides to keep, in their order. -/
def keep (decision : Draw Bool) : List α → Draw (List α)
  | [] => return []
  | a :: rest => do
    let kept ← decision
    let others ← keep decision rest
    return if kept then a :: others else others

/-- The results of `count` draws. -/
def times (count : Nat) (d : Draw α) : Draw (List α) :=
  match count with
  | 0 => return []
  | count + 1 => do
    let first ← d
    let others ← times count d
    return first :: others

end FormalLanguage.Sampling
