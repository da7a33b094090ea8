/-!
# Powers

Powers of the two bases that numbers are written in: bits and decimal
digits.
-/

namespace Manifest

def pow2 (n : Nat) : Nat := Nat.pow 2 n

def pow10 (n : Nat) : Nat := Nat.pow 10 n

@[simp] theorem pow2_zero : pow2 0 = 1 := rfl

theorem pow2_succ (n : Nat) : pow2 (n + 1) = pow2 n * 2 := rfl

@[simp] theorem pow10_zero : pow10 0 = 1 := rfl

theorem pow10_succ (n : Nat) : pow10 (n + 1) = pow10 n * 10 := rfl

theorem pow2_pos (n : Nat) : 0 < pow2 n := Nat.pow_pos (by decide)

theorem pow10_pos (n : Nat) : 0 < pow10 n := Nat.pow_pos (by decide)

end Manifest
