import Mathlib.Data.List.Basic
import Mathlib.Tactic

/-!
# Hashes that are computed block by block

A compression function `compress : σ → List α → σ` takes a chaining value over a block of `n`
letters.  A message is padded (a mark, blanks, and what `final` says of its length) and the
compression goes over its blocks: `digest`.

Code that is given the message in parts keeps a chaining value and the letters of the block that is
not full: `put` takes one letter, and `close` pads what is kept at the end, in one block or two.
`absorb_eq` says what is kept, and `close_absorb` that the digest is reached.
-/

namespace BlockHash

variable {σ α : Type*} (compress : σ → List α → σ) (n : ℕ)

/-- The first `k` blocks of a list. -/
def blocks (k : ℕ) (l : List α) : List (List α) :=
  (List.range k).map fun i => (l.drop (n * i)).take n

/-- A letter is taken. -/
def put (h : σ × List α) (x : α) : σ × List α :=
  if h.2.length + 1 = n then (compress h.1 (h.2 ++ [x]), []) else (h.1, h.2 ++ [x])

/-- Letters are taken one by one. -/
def absorb (s : σ) (l : List α) : σ × List α := l.foldl (put compress n) (s, [])

theorem absorb_append (s : σ) (l l' : List α) :
    absorb compress n s (l ++ l') = l'.foldl (put compress n) (absorb compress n s l) := by
  rw [absorb, List.foldl_append]
  rfl

theorem put_eq (s : σ) (r : List α) (x : α) :
    put compress n (s, r) x =
      if r.length + 1 = n then (compress s (r ++ [x]), []) else (s, r ++ [x]) := rfl

variable {n}

/-- Blocks that were full stay as they are. -/
theorem blocks_append {k : ℕ} {l : List α} (h : n * k ≤ l.length) (l' : List α) :
    blocks n k (l ++ l') = blocks n k l := by
  unfold blocks
  apply List.map_congr_left
  intro i hi
  have hik : n * i + n ≤ n * k := by
    rw [← Nat.mul_succ]
    exact Nat.mul_le_mul_left n (List.mem_range.1 hi)
  rw [List.drop_append_of_le_length (by omega), List.take_append_of_le_length]
  rw [List.length_drop]
  omega

theorem blocks_succ (k : ℕ) (l : List α) :
    blocks n (k + 1) l = blocks n k l ++ [(l.drop (n * k)).take n] := by
  rw [blocks, List.range_succ, List.map_append]
  rfl

/-- What is kept: the full blocks compressed, and the rest. -/
theorem absorb_eq (hn : 0 < n) (s : σ) (l : List α) :
    absorb compress n s l =
      ((blocks n (l.length / n) l).foldl compress s, l.drop (n * (l.length / n))) := by
  induction l using List.reverseRecOn with
  | nil => rw [absorb, List.length_nil, Nat.zero_div]; rfl
  | append_singleton l x ih =>
    have hle : n * (l.length / n) ≤ l.length := Nat.mul_div_le _ _
    have hmod := Nat.div_add_mod l.length n
    have hlt := Nat.mod_lt l.length hn
    have hrest : (l.drop (n * (l.length / n))).length = l.length % n := by
      rw [List.length_drop]
      omega
    rw [absorb_append, ih, List.foldl_cons, List.foldl_nil, put_eq, hrest]
    by_cases hfull : l.length % n + 1 = n
    · have hdiv : (l ++ [x]).length / n = l.length / n + 1 := by
        rw [List.length_append, List.length_singleton]
        apply Nat.div_eq_of_lt_le
        · rw [Nat.mul_comm, Nat.mul_succ]
          omega
        · rw [Nat.mul_comm, Nat.mul_succ, Nat.mul_succ]
          omega
      have hblock : ((l ++ [x]).drop (n * (l.length / n))).take n =
          l.drop (n * (l.length / n)) ++ [x] := by
        rw [List.drop_append_of_le_length hle]
        apply List.take_of_length_le
        rw [List.length_append, hrest, List.length_singleton]
        exact hfull.le
      have hdrop : (l ++ [x]).drop (n * (l.length / n + 1)) = [] := by
        apply List.drop_of_length_le
        rw [List.length_append, List.length_singleton, Nat.mul_succ]
        omega
      rw [if_pos hfull, hdiv, blocks_succ, blocks_append hle, hblock, List.foldl_append, hdrop]
      rfl
    · have hdiv : (l ++ [x]).length / n = l.length / n := by
        rw [List.length_append, List.length_singleton]
        apply Nat.div_eq_of_lt_le
        · rw [Nat.mul_comm]
          omega
        · rw [Nat.mul_comm, Nat.mul_succ]
          omega
      rw [if_neg hfull, hdiv, blocks_append hle, List.drop_append_of_le_length hle]

/-- The number of letters kept. -/
theorem length_absorb (hn : 0 < n) (s : σ) (l : List α) :
    (absorb compress n s l).2.length = l.length % n := by
  rw [absorb_eq compress hn, List.length_drop]
  have := Nat.div_add_mod l.length n
  omega

/-- Letters that do not fill the block. -/
theorem foldl_put_short {s : σ} {r l : List α} (h : r.length + l.length < n) :
    l.foldl (put compress n) (s, r) = (s, r ++ l) := by
  induction l generalizing r with
  | nil => rw [List.append_nil]; rfl
  | cons x l ih =>
    rw [List.length_cons] at h
    rw [List.foldl_cons, put_eq, if_neg (by omega), ih, List.append_assoc]
    · rfl
    · rw [List.length_append, List.length_singleton]
      omega

/-- Letters that fill it. -/
theorem foldl_put_full {s : σ} {r l : List α} (hl : l ≠ []) (h : r.length + l.length = n) :
    l.foldl (put compress n) (s, r) = (compress s (r ++ l), []) := by
  obtain ⟨l, x, rfl⟩ := (List.eq_nil_or_concat' l).resolve_left hl
  rw [List.length_append, List.length_singleton] at h
  have hshort : l.foldl (put compress n) (s, r) = (s, r ++ l) :=
    foldl_put_short compress (by omega)
  rw [List.foldl_append, hshort, List.foldl_cons, List.foldl_nil, put_eq, if_pos, List.append_assoc]
  rw [List.length_append]
  omega

/-! ### Padding -/

section Padding

variable (mark blank : α) (t : ℕ) (final : ℕ → List α)

/-- The number of blanks that makes the blocks full. -/
def blanks (n t len : ℕ) : ℕ := (n - (len + 1 + t) % n) % n

/-- The padded message. -/
def pad (n : ℕ) (m : List α) : List α :=
  m ++ mark :: (List.replicate (blanks n t m.length) blank ++ final m.length)

/-- The compression goes over all blocks of the padded message. -/
def digest (n : ℕ) (s : σ) (m : List α) : σ :=
  (blocks n ((pad mark blank t final n m).length / n) (pad mark blank t final n m)).foldl compress s

/-- What is kept is padded, in two blocks if there is no room for what is said of the length. -/
def close (n : ℕ) (h : σ × List α) (len : ℕ) : σ :=
  if h.2.length + 1 + t ≤ n then
    compress h.1 (h.2 ++ mark :: (List.replicate (n - t - (h.2.length + 1)) blank ++ final len))
  else
    compress (compress h.1 (h.2 ++ mark :: List.replicate (n - (h.2.length + 1)) blank))
      (List.replicate (n - t) blank ++ final len)

variable {t final}

theorem blanks_eq {r len : ℕ} (hr : r = len % n) (hlt : r < n) (ht : t < n) :
    blanks n t len = if r + 1 + t ≤ n then n - t - (r + 1) else n - (r + 1) + (n - t) := by
  have hsum : (len + 1 + t) % n = (r + 1 + t) % n := by
    rw [Nat.add_assoc, Nat.add_assoc, hr, Nat.mod_add_mod]
  rw [blanks, hsum]
  split_ifs with hfit
  · rcases hfit.eq_or_lt with heq | hlt'
    · rw [heq, Nat.mod_self, Nat.sub_zero, Nat.mod_self]
      omega
    · rw [Nat.mod_eq_of_lt hlt', Nat.mod_eq_of_lt (by omega)]
      omega
  · have hover : (r + 1 + t) % n = r + 1 + t - n := by
      rw [Nat.mod_eq_sub_mod (by omega), Nat.mod_eq_of_lt (by omega)]
    rw [hover, Nat.mod_eq_of_lt (by omega)]
    omega

/-- Padding what is kept gives the digest. -/
theorem close_absorb (ht : t < n) (ht₀ : 0 < t) (hfinal : ∀ len, (final len).length = t) (s : σ)
    (m : List α) :
    close compress mark blank t final n (absorb compress n s m) m.length =
      digest compress mark blank t final n s m := by
  have hn : 0 < n := by omega
  have hlen := length_absorb compress hn s m
  have hlt : (absorb compress n s m).2.length < n := hlen ▸ Nat.mod_lt _ hn
  have hdigest : digest compress mark blank t final n s m =
      (absorb compress n s (pad mark blank t final n m)).1 := by
    rw [absorb_eq compress hn]
    rfl
  rw [hdigest, pad, absorb_append, blanks_eq hlen hlt ht, close]
  generalize absorb compress n s m = h at hlt ⊢
  obtain ⟨s', r⟩ := h
  simp only at hlt ⊢
  by_cases hfit : r.length + 1 + t ≤ n
  · rw [if_pos hfit, if_pos hfit, foldl_put_full compress (List.cons_ne_nil _ _)]
    rw [List.length_cons, List.length_append, List.length_replicate, hfinal]
    omega
  · rw [if_neg hfit, if_neg hfit, List.replicate_add, List.append_assoc, ← List.cons_append,
      List.foldl_append, foldl_put_full compress (List.cons_ne_nil _ _), foldl_put_full compress]
    · rfl
    · intro hnil
      have := congrArg List.length hnil
      rw [List.length_append, hfinal, List.length_nil] at this
      omega
    · rw [List.length_nil, List.length_append, List.length_replicate, hfinal]
      omega
    · rw [List.length_cons, List.length_replicate]
      omega

end Padding

end BlockHash
