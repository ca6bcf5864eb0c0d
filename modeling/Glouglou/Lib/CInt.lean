import Mathlib.Tactic

/-!
# Fixed-width integers of C

The values of `int` and `unsigned int` are integers, and every arithmetic result is brought
back into the type by `int32`, which wraps in two's complement, or by `uint32`.  Inside the
range of `int` the first changes nothing (`int32_of_mem`).  `uint8`, `uint16` and `size_t` are
conversions too.
-/

namespace CInt

/-- The largest `int`. -/
def INT_MAX : ℤ := 2 ^ 31 - 1

/-- Wrap-around conversion to a 32-bit `int`. -/
def int32 (x : ℤ) : ℤ := (x + 2 ^ 31) % 2 ^ 32 - 2 ^ 31

/-- Conversion to a 32-bit `unsigned int`. -/
def uint32 (x : ℤ) : ℤ := x % 2 ^ 32

/-- Conversion to an 8-bit unsigned integer. -/
def uint8 (x : ℤ) : ℕ := (x % 2 ^ 8).toNat

/-- Conversion to a 16-bit unsigned integer. -/
def uint16 (x : ℤ) : ℕ := (x % 2 ^ 16).toNat

/-- Conversion to a 64-bit `size_t`. -/
def size_t (x : ℤ) : ℕ := (x % 2 ^ 64).toNat

theorem int32_of_mem {x : ℤ} (h : -2 ^ 31 ≤ x) (h' : x ≤ INT_MAX) : int32 x = x := by
  unfold INT_MAX at h'
  unfold int32
  omega

theorem int32_le (x : ℤ) : int32 x ≤ INT_MAX := by
  unfold int32 INT_MAX
  omega

theorem le_int32 (x : ℤ) : -2 ^ 31 ≤ int32 x := by
  unfold int32
  omega

/-- Just above the range an `int` wraps to a negative value. -/
theorem int32_of_overflow {x : ℤ} (h : INT_MAX < x) (h' : x < 2 ^ 32) :
    int32 x = x - 2 ^ 32 := by
  unfold INT_MAX at h
  unfold int32
  omega

@[simp] theorem int32_zero : int32 0 = 0 := rfl

/-- Wrapping an intermediate result changes nothing in the end. -/
theorem int32_add_int32 (x y : ℤ) : int32 (int32 x + y) = int32 (x + y) := by
  unfold int32
  omega

theorem uint32_add_uint32 (x y : ℤ) : uint32 (uint32 x + y) = uint32 (x + y) := by
  unfold uint32
  omega

/-- An `unsigned int` stored into an `int`. -/
theorem int32_uint32 (x : ℤ) : int32 (uint32 x) = int32 x := by
  unfold int32 uint32
  omega

/-- Two values are the same `int` when they differ by a multiple of `2 ^ 32`. -/
theorem int32_eq_int32 {x y : ℤ} : int32 x = int32 y ↔ x ≡ y [ZMOD 2 ^ 32] := by
  unfold int32 Int.ModEq
  omega

end CInt
