/-!
Powers: those of two and ten, of which scales are made, and powers by repeated squaring for a
multiplication that may fail or round.
-/

namespace Reshape

def twoPow (n : Nat) : Nat := Nat.pow 2 n

def tenPow (n : Nat) : Nat := Nat.pow 10 n

/-- Multiplies `product` by `base ^ n`, for `n ≥ 1`, taking the bits of `n` from the lowest up: a
set bit multiplies the product, and the base is squared as long as a bit is left. `fuel` bounds the
count of bits. -/
def powerBits {α : Type} (multiply : α → α → Option α) :
    Nat → Nat → α → α → Option α
  | 0, _, product, _ => some product
  | fuel + 1, n, product, base => do
    let product ← if n % 2 = 1 then multiply product base else some product
    if n / 2 = 0 then some product
    else powerBits multiply fuel (n / 2) product (← multiply base base)

/-- `base ^ n` by repeated squaring from the lowest bit of `n`, failing where a multiplication
fails. -/
def power? {α : Type} (multiply : α → α → Option α) (one base : α) (n : Nat) : Option α :=
  if n = 0 then some one else powerBits multiply (n.log2 + 1) n one base

end Reshape
