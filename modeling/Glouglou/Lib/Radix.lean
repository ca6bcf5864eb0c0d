import Mathlib.Data.List.Basic
import Mathlib.Tactic

/-!
# Digits

The last `n` digits of a number to some base, the most significant first, and the number that a
list of digits says.
-/

namespace Radix

variable (b : ℕ)

/-- The last `n` digits of `v`. -/
def digits : ℕ → ℕ → List ℕ
  | 0, _ => []
  | n + 1, v => digits n (v / b) ++ [v % b]

/-- The number with these digits. -/
def value (ds : List ℕ) : ℕ := ds.foldl (fun v d => v * b + d) 0

@[simp] theorem length_digits (n v : ℕ) : (digits b n v).length = n := by
  induction n generalizing v with
  | zero => rfl
  | succ n ih => rw [digits, List.length_append, ih, List.length_singleton]

theorem value_concat (ds : List ℕ) (d : ℕ) : value b (ds ++ [d]) = value b ds * b + d := by
  rw [value, List.foldl_append]
  rfl

variable {b}

theorem digits_lt (hb : 0 < b) (n v : ℕ) : ∀ d ∈ digits b n v, d < b := by
  induction n generalizing v with
  | zero => simp [digits]
  | succ n ih =>
    intro d hd
    rw [digits] at hd
    rcases List.mem_append.1 hd with hd | hd
    · exact ih _ d hd
    · rw [List.mem_singleton.1 hd]
      exact Nat.mod_lt _ hb

/-- The digits say the number, if there are enough. -/
theorem value_digits (n v : ℕ) : value b (digits b n v) = v % b ^ n := by
  induction n generalizing v with
  | zero => rw [pow_zero, Nat.mod_one]; rfl
  | succ n ih =>
    rw [digits, value_concat, ih, pow_succ', Nat.mod_mul, Nat.mul_comm b, Nat.add_comm]

/-- The number says the digits. -/
theorem digits_value (ds : List ℕ) (h : ∀ d ∈ ds, d < b) :
    digits b ds.length (value b ds) = ds := by
  induction ds using List.reverseRecOn with
  | nil => rfl
  | append_singleton ds d ih =>
    have hd : d < b := h d (List.mem_append_right _ List.mem_cons_self)
    have hdiv : (value b ds * b + d) / b = value b ds := by
      rw [Nat.add_comm, Nat.add_mul_div_right _ _ (by omega), Nat.div_eq_of_lt hd, Nat.zero_add]
    have hmod : (value b ds * b + d) % b = d := by
      rw [Nat.add_comm, Nat.add_mul_mod_self_right, Nat.mod_eq_of_lt hd]
    rw [List.length_append, List.length_singleton, digits, value_concat, hdiv, hmod,
      ih fun e he => h e (List.mem_append_left _ he)]

end Radix
