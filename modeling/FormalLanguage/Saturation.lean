/-! Repeating a step until it changes nothing.

`saturate` stops at the first value that the step leaves alone. `rounds` limits
the number of steps; where every step that changes something uses up one of
finitely many chances, their number is enough (`saturate_fixed`). -/
namespace FormalLanguage

def saturate [DecidableEq α] (grow : α → α) : Nat → α → α
  | 0, known => known
  | rounds + 1, known =>
    let grown := grow known
    if grown = known then known else saturate grow rounds grown

theorem saturate_of_fixed [DecidableEq α] {grow : α → α} {known : α} (h : grow known = known)
    (rounds : Nat) : saturate grow rounds known = known := by
  cases rounds with
  | zero => rfl
  | succ rounds => simp [saturate, h]

/-- Saturating takes the step the given number of times, whether or not it stops early. -/
theorem saturate_succ [DecidableEq α] (grow : α → α) (rounds : Nat) (known : α) :
    saturate grow (rounds + 1) known = saturate grow rounds (grow known) := by
  by_cases h : grow known = known
  · rw [h, saturate_of_fixed h, saturate_of_fixed h]
  · simp [saturate, h]

/-- What a step keeps, saturating keeps. -/
theorem saturate_induction [DecidableEq α] {grow : α → α} {P : α → Prop}
    (hstep : ∀ known, P known → P (grow known)) (rounds : Nat) {known : α} (h : P known) :
    P (saturate grow rounds known) := by
  induction rounds generalizing known with
  | zero => exact h
  | succ rounds ih =>
    rw [saturate_succ]
    exact ih (hstep known h)

/-- With a round left for every chance, saturating comes to a value that the step leaves alone. -/
theorem saturate_fixed [DecidableEq α] {grow : α → α} (chances : α → Nat)
    (hstep : ∀ known, grow known ≠ known → chances (grow known) < chances known)
    {rounds : Nat} {known : α} (hrounds : chances known ≤ rounds) :
    grow (saturate grow rounds known) = saturate grow rounds known := by
  induction rounds generalizing known with
  | zero =>
    by_cases hfixed : grow known = known
    · exact hfixed
    · have hlt := hstep known hfixed
      omega
  | succ rounds ih =>
    by_cases hfixed : grow known = known
    · rw [saturate_of_fixed hfixed, hfixed]
    · have hlt := hstep known hfixed
      rw [saturate_succ]
      exact ih (by omega)

end FormalLanguage
