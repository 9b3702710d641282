import Mathlib.Data.Int.Defs

/-!
# The `int` counters of the sources

`ConsensusCluster::proposeValue` and `MasterNode::updateData` number their rounds and versions
with `++` on an `int`. Past `INT_MAX` that is signed overflow, which C++ leaves undefined; the
model takes the wrap of the machine's 32-bit add, so `INT_MAX` is followed by `INT_MIN`. Below
`INT_MAX` the increment adds one, and no increment ever exceeds `INT_MAX`.
-/

namespace DistributedCaching

/-- `++counter` on a 32-bit `int`. -/
def incrementInt (counter : Int) : Int :=
  Int.bmod (counter + 1) 4294967296

theorem incrementInt_of_lt {counter : Int} (nonneg : 0 ≤ counter)
    (room : counter < 2147483647) : incrementInt counter = counter + 1 := by
  rw [incrementInt, Int.bmod_pos _ _ (by omega), Int.emod_eq_of_lt (by omega) (by omega)]

theorem incrementInt_le (counter : Int) : incrementInt counter ≤ 2147483647 := by
  have := Int.bmod_lt (x := counter + 1) (m := 4294967296) (by decide)
  unfold incrementInt
  omega

example : incrementInt (2147483647) = -2147483648 := by decide

end DistributedCaching
