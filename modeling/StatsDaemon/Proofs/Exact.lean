import Mathlib
import StatsDaemon.Number

namespace StatsDaemon

class ExactNumber (α : Type) extends Number α, AddCommMonoid α where
  zero_eq : (Number.zero : α) = 0

-- The root is that of a square; other numbers have no exact one.
instance : ExactNumber ℚ where
  ofNat n := n
  emptySum := 0
  sqrt := Rat.sqrt
  abs x := |x|
  isPositive x := 0 < x
  isNegative x := x < 0
  isNonnegative x := 0 ≤ x
  totalLe x y := x ≤ y
  roundToCount x := (round x).toNat
  add_assoc := add_assoc
  zero_add := zero_add
  add_zero := add_zero
  add_comm := add_comm
  nsmul := (· • ·)
  nsmul_zero := zero_nsmul
  nsmul_succ n x := succ_nsmul x n
  zero_eq := rfl

-- What the sums in a shard need of exact arithmetic: it does not matter how they are bracketed.
structure Number.SumsExactly (α : Type) [Number α] : Prop where
  assoc : ∀ x y z : α, x + y + z = x + (y + z)
  zero_add : ∀ x : α, Number.zero + x = x
  add_zero : ∀ x : α, x + Number.zero = x

theorem ExactNumber.sumsExactly (α : Type) [ExactNumber α] : Number.SumsExactly α := by
  refine ⟨add_assoc, fun x => ?_, fun x => ?_⟩
  · rw [zero_eq, zero_add]
  · rw [zero_eq, add_zero]

end StatsDaemon
