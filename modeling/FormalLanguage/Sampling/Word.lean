import FormalLanguage.Misuse
import FormalLanguage.Sampling.Draw
import FormalLanguage.Symbol

/-! Random words over the letters of an alphabet. -/
namespace FormalLanguage.Sampling

/-- A word with a length between `least` and `most`, or the empty one if there is no letter. -/
def word (alphabet : SymbolSet) (least most : Nat) : Draw (Except Misuse Word) :=
  if most < least then return .error (.invertedLengths least most)
  else
    match alphabet.letters.toList with
    | [] => return .ok []
    | x :: letters => do
      let length ← between least most
      let indices ← times length (below (letters.length + 1))
      return .ok (indices.map fun i => (x :: letters).getD i x)

def words (alphabet : SymbolSet) (least most count : Nat) : Draw (Except Misuse (List Word)) := do
  let drawn ← times count (word alphabet least most)
  return drawn.mapM id

end FormalLanguage.Sampling
