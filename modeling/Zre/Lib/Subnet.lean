import Mathlib.Data.Nat.Notation

/-!
# Blocks of addresses

An address and a mask of the same width name the block of all addresses that have the masked bits of the address.
The last one of a block is the address to which all of them listen.
-/

namespace Subnet

variable {w : ℕ}

/-- The last address of the block of `addr`. -/
def last (addr mask : BitVec w) : BitVec w := (addr &&& mask) ||| ~~~mask

theorem last_eq (addr mask : BitVec w) : last addr mask = addr ||| ~~~mask := by
  apply BitVec.eq_of_getLsbD_eq
  intro i hi
  simp only [last, BitVec.getLsbD_or, BitVec.getLsbD_and, BitVec.getLsbD_not, hi, decide_true, Bool.true_and]
  cases addr.getLsbD i <;> cases mask.getLsbD i <;> rfl

/-- Two blocks end with the same address if the masks select the same zeros of their addresses. -/
theorem last_eq_last_iff (a b m k : BitVec w) : last a m = last b k ↔ m &&& ~~~a = k &&& ~~~b := by
  have hzeros : ∀ x y : BitVec w, ~~~last x y = y &&& ~~~x := fun x y => by
    rw [last_eq, BitVec.not_or, BitVec.not_not, BitVec.and_comm]
  rw [← hzeros, ← hzeros, BitVec.not_inj]

end Subnet
