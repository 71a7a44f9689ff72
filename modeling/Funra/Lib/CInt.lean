import Mathlib.Tactic.Ring

/-!
# C integer conversions

`int32` and `uint32` are the conversions to a 32-bit signed and unsigned integer, on `Int`. Every
fact a proof needs is that a value in range is unchanged and that the result is in range; the rest is
linear arithmetic after `unfold`.
-/

namespace CInt

/-- Conversion to a signed 32-bit integer (two's complement). -/
def int32 (x : Int) : Int := (x + 2147483648) % 4294967296 - 2147483648

/-- Conversion to an unsigned 32-bit integer. -/
def uint32 (x : Int) : Int := x % 4294967296

/-- Conversion to an unsigned 64-bit size. -/
def sizeT (x : Int) : Nat := (x % 18446744073709551616).toNat

@[simp] theorem int32_of_range {x : Int} (hlo : -2147483648 ≤ x) (hhi : x < 2147483648) :
    int32 x = x := by
  unfold int32; omega

@[simp] theorem uint32_of_range {x : Int} (hlo : 0 ≤ x) (hhi : x < 4294967296) : uint32 x = x := by
  unfold uint32; omega

theorem int32_range (x : Int) : -2147483648 ≤ int32 x ∧ int32 x < 2147483648 := by
  unfold int32; omega

theorem sizeT_of_nonneg {x : Int} (hlo : 0 ≤ x) (hhi : x < 18446744073709551616) :
    sizeT x = x.toNat := by
  unfold sizeT; omega

end CInt
