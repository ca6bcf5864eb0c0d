import Mathlib.Tactic

/-!
# Byte memory

The memory around one object: a byte for every offset from the object's first byte, inside
the object or not.  `read m a n` lists the `n` bytes at offset `a`, `write m a bs` stores
`bs` there, and nothing bounds either of them: whether an access stays inside the object is
said of its offset and size (`InBounds`, and `Memcpy.Fits` for a copy to an array).
-/

/-- A byte for every offset from the start of an object. -/
abbrev Mem := ℤ → UInt8

/-- A `memcpy` of `size` bytes to the start of an array of `cap` bytes. -/
structure Memcpy where
  cap : ℕ
  size : ℕ
  deriving DecidableEq

/-- The copy stays in the array. -/
def Memcpy.Fits (c : Memcpy) : Prop := c.size ≤ c.cap

instance (c : Memcpy) : Decidable c.Fits := inferInstanceAs (Decidable (_ ≤ _))

namespace Mem

/-- Memory that holds zeros. -/
def zeros : Mem := fun _ => 0

/-- The `n` bytes at offset `a`. -/
def read (m : Mem) (a : ℤ) (n : ℕ) : List UInt8 := (List.range n).map fun i : ℕ => m (a + i)

/-- Store `bs` at offset `a`. -/
def write (m : Mem) (a : ℤ) (bs : List UInt8) : Mem := fun i =>
  if a ≤ i then bs[(i - a).toNat]?.getD (m i) else m i

/-- The `n` bytes at offset `a` lie in an object of `size` bytes. -/
def InBounds (size a n : ℤ) : Prop := 0 ≤ a ∧ a + n ≤ size

instance (size a n : ℤ) : Decidable (InBounds size a n) :=
  inferInstanceAs (Decidable (_ ∧ _))

@[simp] theorem length_read (m : Mem) (a : ℤ) (n : ℕ) : (m.read a n).length = n := by
  simp [read]

theorem getElem?_read (m : Mem) (a : ℤ) {n i : ℕ} (h : i < n) :
    (m.read a n)[i]? = some (m (a + i)) := by
  simp [read, h]

theorem read_congr {m m' : Mem} {a : ℤ} {n : ℕ}
    (h : ∀ i : ℤ, a ≤ i → i < a + n → m i = m' i) : m.read a n = m'.read a n := by
  unfold read
  refine List.map_congr_left fun i hi => h _ (by omega) ?_
  have := List.mem_range.1 hi
  omega

/-- A read is the concatenation of the reads of its two parts. -/
theorem read_add (m : Mem) (a : ℤ) (n k : ℕ) :
    m.read a (n + k) = m.read a n ++ m.read (a + n) k := by
  simp only [read, List.range_add, List.map_append, List.map_map]
  congr 1
  refine List.map_congr_left fun i _ => ?_
  simp only [Function.comp_apply]
  congr 1
  push_cast
  ring

theorem take_read (m : Mem) (a : ℤ) {n k : ℕ} (h : k ≤ n) :
    (m.read a n).take k = m.read a k := by
  obtain ⟨d, rfl⟩ := Nat.exists_eq_add_of_le h
  rw [read_add, List.take_left' (length_read _ _ _)]

theorem drop_read (m : Mem) (a : ℤ) {n k : ℕ} (h : k ≤ n) :
    (m.read a n).drop k = m.read (a + k) (n - k) := by
  obtain ⟨d, rfl⟩ := Nat.exists_eq_add_of_le h
  rw [read_add, List.drop_left' (length_read _ _ _), Nat.add_sub_cancel_left]

/-! ### What a write changes -/

theorem write_of_lt (m : Mem) {a i : ℤ} (bs : List UInt8) (h : i < a) : m.write a bs i = m i :=
  if_neg (by omega)

theorem write_of_ge (m : Mem) {a i : ℤ} (bs : List UInt8) (h : a + bs.length ≤ i) :
    m.write a bs i = m i := by
  unfold write
  split_ifs with hi
  · rw [List.getElem?_eq_none (by omega), Option.getD_none]
  · rfl

theorem write_inside (m : Mem) (a : ℤ) (bs : List UInt8) {i : ℕ} (h : i < bs.length) :
    m.write a bs (a + i) = bs[i] := by
  unfold write
  rw [if_pos (by omega), show (a + i - a).toNat = i by omega, List.getElem?_eq_getElem h,
    Option.getD_some]

/-- Nothing is written. -/
@[simp] theorem write_nil (m : Mem) (a : ℤ) : m.write a [] = m := by
  funext i
  simp [write]

/-- Writes to two regions, one behind the other, can be made in either order. -/
theorem write_comm (m : Mem) {a b : ℤ} {bs cs : List UInt8} (h : a + bs.length ≤ b) :
    (m.write b cs).write a bs = (m.write a bs).write b cs := by
  funext i
  by_cases hi : i < b
  · rw [write_of_lt _ cs hi]
    by_cases ha : a ≤ i
    · simp only [write, if_pos ha, if_neg (not_le.2 hi)]
    · rw [write_of_lt _ bs (not_le.1 ha), write_of_lt _ bs (not_le.1 ha), write_of_lt _ cs hi]
  · have hbs : a + bs.length ≤ i := by omega
    rw [write_of_ge _ bs hbs]
    simp only [write, if_pos (not_lt.1 hi)]
    rw [List.getElem?_eq_none (l := bs) (by omega)]
    split_ifs <;> rfl

/-- Writes one behind the other are one write. -/
theorem write_append (m : Mem) (a : ℤ) (bs cs : List UInt8) :
    (m.write a bs).write (a + bs.length) cs = m.write a (bs ++ cs) := by
  funext i
  by_cases hi : a + bs.length ≤ i
  · have hlen : (i - a).toNat - bs.length = (i - (a + bs.length)).toNat := by omega
    simp only [write, if_pos hi, if_pos (show a ≤ i by omega)]
    rw [List.getElem?_append_right (by omega), List.getElem?_eq_none (l := bs) (by omega), hlen,
      Option.getD_none]
  · rw [write_of_lt _ cs (not_le.1 hi)]
    by_cases ha : a ≤ i
    · simp only [write, if_pos ha]
      rw [List.getElem?_append_left (by omega)]
    · rw [write_of_lt _ bs (not_le.1 ha), write_of_lt _ (bs ++ cs) (not_le.1 ha)]

/-- Reading back what was written. -/
@[simp] theorem read_write_self (m : Mem) (a : ℤ) (bs : List UInt8) :
    (m.write a bs).read a bs.length = bs := by
  refine List.ext_getElem (by simp) fun i _ h => ?_
  simp only [read, List.getElem_map, List.getElem_range]
  exact m.write_inside a bs h

/-- A read before the written bytes does not see them. -/
theorem read_write_before (m : Mem) {a b : ℤ} {n : ℕ} (bs : List UInt8) (h : b + n ≤ a) :
    (m.write a bs).read b n = m.read b n :=
  read_congr fun _ _ hi => m.write_of_lt bs (by omega)

/-- A read after the written bytes does not see them. -/
theorem read_write_after (m : Mem) {a b : ℤ} {n : ℕ} (bs : List UInt8)
    (h : a + bs.length ≤ b) : (m.write a bs).read b n = m.read b n :=
  read_congr fun _ hi _ => m.write_of_ge bs (by omega)

/-- Bytes written right after a read extend it. -/
theorem read_write_append (m : Mem) (a : ℤ) (n : ℕ) (bs : List UInt8) :
    (m.write (a + n) bs).read a (n + bs.length) = m.read a n ++ bs := by
  rw [read_add, read_write_before _ _ le_rfl, read_write_self]

end Mem
