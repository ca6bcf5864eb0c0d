import Mathlib.Data.List.TakeWhile
import Glouglou.Lib.CInt
import Glouglou.Lib.Memory

/-!
# Strings of C

A pointer to characters is the list of bytes found there; the C string it denotes ends before
the first zero byte (`view`).

* `strtok`: the call that continues on the string left by the previous one, as a function from
  that string to the token found and the string left for the next call;
* `atoi`: `strtol` in base ten clamped to `long`, then converted to `int`;
* `snprintf`: what is stored of a formatted text, and the length or the error it returns.

`strtok_some` says what a token cut off implies of the string, `strtok_append` and
`strtok_last` what is cut off a string of a given shape; `atoi_digits` is the value of a numeral.
-/

open CInt

namespace CString

/-- A C string: what stands before its terminator. -/
abbrev CStr := { s : List UInt8 // 0 ∉ s }

/-- The bytes of a text of ASCII characters. -/
def ascii (s : String) : List UInt8 := s.toList.map fun c => UInt8.ofNat c.toNat

/-- The C string at a pointer to these bytes. -/
def view (bs : List UInt8) : List UInt8 := bs.takeWhile (· ≠ 0)

/-- `strtok(NULL, delim)` where the previous call left `s`: the token, `none` for `NULL`, and
what this call leaves. -/
def strtok (delim s : List UInt8) : Option (List UInt8) × List UInt8 :=
  let t := s.dropWhile (· ∈ delim)
  if t = [] then (none, [])
  else (some (t.takeWhile (· ∉ delim)), (t.dropWhile (· ∉ delim)).tail)

/-- A number written in decimal. -/
def decimal (n : ℕ) : List UInt8 :=
  if n < 10 then [UInt8.ofNat (48 + n)] else decimal (n / 10) ++ [UInt8.ofNat (48 + n % 10)]

def isspace (c : UInt8) : Bool := c = 32 || (9 ≤ c && c ≤ 13)

def isdigit (c : UInt8) : Bool := 48 ≤ c && c ≤ 57

/-- The number a list of decimal digits denotes. -/
def digitsVal (ds : List UInt8) : ℕ := ds.foldl (fun n c => 10 * n + (c.toNat - 48)) 0

/-- `strtol(s, NULL, 10)`: blanks, an optional sign, digits; clamped to `long`. -/
def strtol (s : List UInt8) : ℤ :=
  match s.dropWhile isspace with
  | 45 :: t => max (-2 ^ 63) (-(digitsVal (t.takeWhile isdigit) : ℤ))
  | 43 :: t => min (2 ^ 63 - 1) (digitsVal (t.takeWhile isdigit) : ℤ)
  | t => min (2 ^ 63 - 1) (digitsVal (t.takeWhile isdigit) : ℤ)

/-- `atoi`, the result of `strtol` converted to `int`. -/
def atoi (s : List UInt8) : ℤ := int32 (strtol s)

/-- `snprintf(str, size, ...)` at `a` of what the format makes: as much as there is room for is
stored, and terminated; the result is the length of all of it, or an error if that is no `int`. -/
def snprintf (m : Mem) (a : ℤ) (size : ℕ) (formatted : List UInt8) : ℤ × Mem :=
  (if INT_MAX < formatted.length then -1 else formatted.length,
    m.write a (formatted.take (size - 1) ++ [0]))

/-! ### The C string at a pointer -/

theorem zero_not_mem_view (bs : List UInt8) : 0 ∉ view bs := by
  intro h
  simpa using List.mem_takeWhile_imp h

theorem view_of_no_zero {bs : List UInt8} (h : 0 ∉ bs) : view bs = bs := by
  unfold view
  rw [List.takeWhile_eq_self_iff]
  intro c hc
  simpa using fun h0 : c = 0 => h (h0 ▸ hc)

theorem view_append {bs cs : List UInt8} (h : 0 ∉ bs) : view (bs ++ cs) = bs ++ view cs := by
  unfold view
  refine List.takeWhile_append_of_pos fun c hc => ?_
  simpa using fun h0 : c = 0 => h (h0 ▸ hc)

/-- A zero byte behind the bytes does not change the string. -/
theorem view_concat_zero (bs : List UInt8) : view (bs ++ [0]) = view bs := by
  unfold view
  rw [List.takeWhile_append]
  split
  · next h =>
    rw [(List.takeWhile_prefix _).eq_of_length h]
    exact List.append_nil bs
  · rfl

/-- The string is what its length says of the bytes. -/
theorem take_length_view (bs : List UInt8) : bs.take (view bs).length = view bs := by
  have hpre : view bs <+: bs := List.takeWhile_prefix _
  exact (List.prefix_iff_eq_take.1 hpre).symm

theorem view_cons_zero (bs : List UInt8) : view (0 :: bs) = [] :=
  List.takeWhile_cons_of_neg (by simp)

/-! ### Strings in memory -/

/-- The bytes before the terminator are read, and what follows it does not matter. -/
theorem view_read_of_zero {m : Mem} {a : ℤ} {n k : ℕ} (hk : k < n)
    (hne : ∀ i < k, m (a + i) ≠ 0) (h0 : m (a + k) = 0) : view (m.read a n) = m.read a k := by
  obtain ⟨d, rfl⟩ := Nat.exists_eq_add_of_lt hk
  have hz : 0 ∉ m.read a k := by
    intro hmem
    obtain ⟨i, hi, h⟩ := List.mem_map.1 hmem
    exact hne i (List.mem_range.1 hi) h
  have hhead : m.read (a + k) (1 + d) = 0 :: m.read (a + k + 1) d := by
    rw [Mem.read_add]
    simp [Mem.read, h0]
  rw [show k + d + 1 = k + (1 + d) by ring, Mem.read_add, view_append hz, hhead, view_cons_zero,
    List.append_nil]

/-- A string stored with its terminator. -/
theorem view_written (m : Mem) (a : ℤ) {s : List UInt8} (h : 0 ∉ s) {n : ℕ} (hn : s.length < n) :
    view ((m.write a (s ++ [0])).read a n) = s := by
  obtain ⟨d, rfl⟩ := Nat.exists_eq_add_of_lt hn
  have hread := m.read_write_self a (s ++ [0])
  rw [List.length_append, List.length_singleton] at hread
  rw [show s.length + d + 1 = s.length + 1 + d by ring, Mem.read_add, hread, List.append_assoc,
    view_append h, List.singleton_append, view_cons_zero, List.append_nil]

/-- What `snprintf` stores of a text. -/
theorem view_snprintf (m : Mem) (a : ℤ) {size : ℕ} (hsize : 0 < size) {l : List UInt8}
    (h0 : 0 ∉ l) : view ((snprintf m a size l).2.read a size) = l.take (size - 1) := by
  refine view_written m a (fun hm => h0 (List.mem_of_mem_take hm)) ?_
  rw [List.length_take]
  omega

/-- Two memories that agree up to a terminator hold the same string. -/
theorem view_read_congr {m m' : Mem} {a : ℤ} {n k : ℕ} (hk : k < n)
    (h : ∀ i ≤ k, m (a + i) = m' (a + i)) (h0 : m (a + k) = 0) :
    view (m.read a n) = view (m'.read a n) := by
  obtain ⟨j, hj, hmin⟩ : ∃ j ≤ k, m (a + j) = 0 ∧ ∀ i < j, m (a + i) ≠ 0 := by
    have hex : ∃ j : ℕ, m (a + j) = 0 := ⟨k, h0⟩
    exact ⟨Nat.find hex, Nat.find_min' hex h0, Nat.find_spec hex, fun i hi => Nat.find_min hex hi⟩
  have hmin' : ∀ i < j, m' (a + i) ≠ 0 := by
    intro i hi
    rw [← h i (by omega)]
    exact hmin.2 i hi
  rw [view_read_of_zero (by omega) hmin.2 hmin.1,
    view_read_of_zero (by omega) hmin' ((h j hj).symm.trans hmin.1)]
  refine Mem.read_congr fun i hi hi' => ?_
  have hij := h (i - a).toNat (by omega)
  rwa [show a + ((i - a).toNat : ℤ) = i by omega] at hij

/-- A string that ends at an offset, and one that goes on there. -/
theorem view_read_ne {m m' : Mem} {a : ℤ} {n k : ℕ} (hk : k < n) (hne : ∀ i < k, m (a + i) ≠ 0)
    (hne' : ∀ i ≤ k, m' (a + i) ≠ 0) (h0 : m (a + k) = 0) :
    view (m.read a n) ≠ view (m'.read a n) := by
  intro heq
  obtain ⟨d, rfl⟩ := Nat.exists_eq_add_of_lt hk
  have hz : 0 ∉ m'.read a (k + 1) := by
    intro hmem
    obtain ⟨i, hi, h⟩ := List.mem_map.1 hmem
    exact hne' i (Nat.lt_succ_iff.1 (List.mem_range.1 hi)) h
  have hlen := congrArg List.length heq
  rw [view_read_of_zero hk hne h0, show k + d + 1 = k + 1 + d by ring, Mem.read_add m',
    view_append hz, List.length_append, Mem.length_read, Mem.length_read] at hlen
  omega

/-! ### Tokens -/

/-- What stops a `dropWhile`. -/
theorem not_of_dropWhile_eq {p : UInt8 → Bool} {s l : List UInt8} {c : UInt8}
    (h : s.dropWhile p = c :: l) : p c = false := by
  have := List.head?_dropWhile_not p s
  rw [h] at this
  exact this

/-- A delimiter after the token: it is passed over, and so are all before the token. -/
theorem strtok_append {delim pre t r : List UInt8} {c : UInt8} (hpre : ∀ x ∈ pre, x ∈ delim)
    (ht : t ≠ []) (htd : ∀ x ∈ t, x ∉ delim) (hc : c ∈ delim) :
    strtok delim (pre ++ t ++ c :: r) = (some t, r) := by
  obtain ⟨x, t', rfl⟩ := List.exists_cons_of_ne_nil ht
  have hx : x ∉ delim := htd x List.mem_cons_self
  have hdrop : (pre ++ (x :: t') ++ c :: r).dropWhile (· ∈ delim) = (x :: t') ++ c :: r := by
    rw [List.append_assoc, List.dropWhile_append_of_pos (by simpa using hpre), List.cons_append,
      List.dropWhile_cons_of_neg (by simpa using hx)]
  have hall : ∀ y ∈ x :: t', decide (y ∉ delim) = true := by simpa using htd
  unfold strtok
  simp only [hdrop]
  rw [if_neg (by simp), List.takeWhile_append_of_pos hall, List.dropWhile_append_of_pos hall,
    List.takeWhile_cons_of_neg (by simpa using hc), List.dropWhile_cons_of_neg (by simpa using hc),
    List.append_nil, List.tail_cons]

/-- No delimiter after the token: nothing is left. -/
theorem strtok_last {delim pre t : List UInt8} (hpre : ∀ x ∈ pre, x ∈ delim)
    (ht : t ≠ []) (htd : ∀ x ∈ t, x ∉ delim) : strtok delim (pre ++ t) = (some t, []) := by
  obtain ⟨x, t', rfl⟩ := List.exists_cons_of_ne_nil ht
  have hx : x ∉ delim := htd x List.mem_cons_self
  have hdrop : (pre ++ x :: t').dropWhile (· ∈ delim) = x :: t' := by
    rw [List.dropWhile_append_of_pos (by simpa using hpre),
      List.dropWhile_cons_of_neg (by simpa using hx)]
  have hall : ∀ y ∈ x :: t', decide (y ∉ delim) = true := by simpa using htd
  unfold strtok
  simp only [hdrop]
  rw [if_neg (by simp), List.takeWhile_eq_self_iff.2 hall, List.dropWhile_eq_nil_iff.2 hall,
    List.tail_nil]

/-- A token is a run of other bytes between delimiters. -/
theorem strtok_some {delim s t r : List UInt8} (h : strtok delim s = (some t, r)) :
    t ≠ [] ∧ (∀ x ∈ t, x ∉ delim) ∧ ∃ pre, (∀ x ∈ pre, x ∈ delim) ∧
      ((s = pre ++ t ∧ r = []) ∨ ∃ c ∈ delim, s = pre ++ t ++ c :: r) := by
  unfold strtok at h
  rcases hd : s.dropWhile (· ∈ delim) with _ | ⟨x, l⟩
  · simp [hd] at h
  · simp only [hd, reduceCtorEq, ↓reduceIte, Prod.mk.injEq, Option.some.injEq] at h
    obtain ⟨rfl, rfl⟩ := h
    have hx : x ∉ delim := by simpa using not_of_dropWhile_eq hd
    refine ⟨?_, ?_, s.takeWhile (· ∈ delim), ?_, ?_⟩
    · rw [List.takeWhile_cons_of_pos (by simpa using hx)]
      simp
    · intro y hy
      simpa using List.mem_takeWhile_imp hy
    · intro y hy
      simpa using List.mem_takeWhile_imp hy
    · have hs : s = s.takeWhile (· ∈ delim) ++ (x :: l) := by
        rw [← hd, List.takeWhile_append_dropWhile]
      have ht := List.takeWhile_append_dropWhile (p := fun y => decide (y ∉ delim)) (l := x :: l)
      rcases hr : (x :: l).dropWhile (· ∉ delim) with _ | ⟨c, r⟩
      · rw [hr, List.append_nil] at ht
        exact .inl ⟨by rwa [ht], rfl⟩
      · rw [hr] at ht
        refine .inr ⟨c, ?_, ?_⟩
        · simpa using not_of_dropWhile_eq hr
        · rw [List.tail_cons, List.append_assoc, ht]
          exact hs

/-- With no delimiters the token is all that is left, if anything is. -/
theorem strtok_nil (s : List UInt8) : strtok [] s = (if s = [] then none else some s, []) := by
  have hd : s.dropWhile (· ∈ ([] : List UInt8)) = s := by
    cases s with
    | nil => rfl
    | cons x l => rw [List.dropWhile_cons_of_neg (by simp)]
  unfold strtok
  simp only [hd]
  split_ifs
  · rfl
  · rw [List.takeWhile_eq_self_iff.2 (by simp), List.dropWhile_eq_nil_iff.2 (by simp),
      List.tail_nil]

/-! ### Numerals -/

theorem strtol_digits {ds : List UInt8} (hne : ds ≠ []) (h : ∀ c ∈ ds, isdigit c) :
    strtol ds = min (2 ^ 63 - 1) (digitsVal ds : ℤ) := by
  obtain ⟨x, l, rfl⟩ := List.exists_cons_of_ne_nil hne
  have hx : isdigit x := h x List.mem_cons_self
  have htake : (x :: l).takeWhile isdigit = x :: l := List.takeWhile_eq_self_iff.2 h
  -- a digit is neither a blank nor a sign
  have hdrop : (x :: l).dropWhile isspace = x :: l := by
    refine List.dropWhile_cons_of_neg ?_
    simp only [isdigit, isspace, Bool.and_eq_true, decide_eq_true_eq, Bool.or_eq_true] at hx ⊢
    grind
  have h45 : x ≠ 45 := by rintro rfl; exact absurd hx (by decide)
  have h43 : x ≠ 43 := by rintro rfl; exact absurd hx (by decide)
  unfold strtol
  rw [hdrop]
  split
  · simp_all
  · simp_all
  · rw [htake]

/-- `atoi` of a numeral in the range of `int` is its value. -/
theorem atoi_digits {ds : List UInt8} (hne : ds ≠ []) (h : ∀ c ∈ ds, isdigit c)
    (hmax : (digitsVal ds : ℤ) ≤ INT_MAX) : atoi ds = digitsVal ds := by
  unfold atoi
  rw [strtol_digits hne h]
  unfold INT_MAX at hmax
  rw [min_eq_right (by omega)]
  exact int32_of_mem (by omega) hmax

/-- The character of a digit. -/
theorem isdigit_ofNat {d : ℕ} (h : d < 10) :
    isdigit (UInt8.ofNat (48 + d)) = true ∧ (UInt8.ofNat (48 + d)).toNat - 48 = d := by
  interval_cases d <;> decide

/-- A number written in decimal is read back. -/
theorem decimal_digits (n : ℕ) :
    decimal n ≠ [] ∧ (∀ c ∈ decimal n, isdigit c) ∧ digitsVal (decimal n) = n := by
  induction n using Nat.strongRecOn with
  | ind n ih =>
    by_cases h : n < 10
    · have hd : decimal n = [UInt8.ofNat (48 + n)] := by rw [decimal, if_pos h]
      rw [hd]
      refine ⟨by simp, fun c hc => ?_, ?_⟩
      · rw [List.mem_singleton.1 hc]
        exact (isdigit_ofNat h).1
      · simp only [digitsVal, List.foldl_cons, List.foldl_nil]
        rw [(isdigit_ofNat h).2]
        omega
    · obtain ⟨-, hdig, hval⟩ := ih (n / 10) (by omega)
      have hlast : n % 10 < 10 := Nat.mod_lt _ (by norm_num)
      have hd : decimal n = decimal (n / 10) ++ [UInt8.ofNat (48 + n % 10)] := by
        rw [decimal, if_neg h]
      rw [hd]
      refine ⟨by simp, fun c hc => ?_, ?_⟩
      · rcases List.mem_append.1 hc with hc | hc
        · exact hdig c hc
        · rw [List.mem_singleton.1 hc]
          exact (isdigit_ofNat hlast).1
      · unfold digitsVal at hval ⊢
        rw [List.foldl_append, hval, List.foldl_cons, List.foldl_nil, (isdigit_ofNat hlast).2]
        omega

end CString
