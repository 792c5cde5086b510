import TrialLoop.Random.Stream

namespace TrialLoop

variable {α : Type}

/-- Swaps the items from a position down to the second, each with one that is not above it. -/
def shuffleFrom : Nat → Array α → StateM RandomStream (Array α)
  | 0, xs => return xs
  | i + 1, xs => do
    let j ← RandomStream.below (i + 2)
    shuffleFrom i (xs.swapIfInBounds (i + 1) j)

/-- The items in a random order. -/
def shuffle (xs : Array α) : StateM RandomStream (Array α) :=
  shuffleFrom (xs.size - 1) xs

end TrialLoop
