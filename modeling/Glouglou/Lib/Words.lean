import Glouglou.Lib.Memory

/-!
# Words in memory

Unsigned words of any number of bytes on a little-endian machine: `le k x` lists the `k` bytes
of `x`, least significant first, `ofLe` is the number they denote, and `swap k` reverses the
bytes of a `k`-byte word, which is what the conversions between host and network order do.

A `Field` is the place of a word in an object; `get` and `set` load and store it.
-/

namespace Words

/-- The number that bytes denote, least significant first. -/
def ofLe : List UInt8 → ℕ
  | [] => 0
  | b :: bs => b.toNat + 256 * ofLe bs

/-- The `k` bytes of a word, least significant first. -/
def le : ℕ → ℕ → List UInt8
  | 0, _ => []
  | k + 1, x => UInt8.ofNat x :: le k (x / 256)

/-- The word of `k` bytes with its bytes in the other order. -/
def swap (k x : ℕ) : ℕ := ofLe (le k x).reverse

@[simp] theorem length_le (k x : ℕ) : (le k x).length = k := by
  induction k generalizing x with
  | zero => rfl
  | succ k ih => rw [le, List.length_cons, ih]

theorem ofLe_lt (bs : List UInt8) : ofLe bs < 256 ^ bs.length := by
  induction bs with
  | nil => simp [ofLe]
  | cons b bs ih =>
    have hb : b.toNat < 256 := b.toNat_lt
    rw [ofLe, List.length_cons, pow_succ]
    omega

theorem swap_lt (k x : ℕ) : swap k x < 256 ^ k := by
  have h := ofLe_lt (le k x).reverse
  rwa [List.length_reverse, length_le] at h

/-- Loading what was stored. -/
theorem ofLe_le (k x : ℕ) : ofLe (le k x) = x % 256 ^ k := by
  induction k generalizing x with
  | zero => rw [le, ofLe, pow_zero, Nat.mod_one]
  | succ k ih =>
    have hb : (UInt8.ofNat x).toNat = x % 256 := UInt8.toNat_ofNat'
    rw [le, ofLe, ih, hb, pow_succ', Nat.mod_mul]

theorem ofLe_le_of_lt {k x : ℕ} (h : x < 256 ^ k) : ofLe (le k x) = x := by
  rw [ofLe_le, Nat.mod_eq_of_lt h]

/-- Storing what was loaded. -/
theorem le_ofLe (bs : List UInt8) : le bs.length (ofLe bs) = bs := by
  induction bs with
  | nil => rfl
  | cons b bs ih =>
    have hb : b.toNat < 256 := b.toNat_lt
    have hmod : UInt8.ofNat (b.toNat + 256 * ofLe bs) = b := by
      apply UInt8.toNat_inj.1
      rw [UInt8.toNat_ofNat', Nat.add_mul_mod_self_left, Nat.mod_eq_of_lt hb]
    have hdiv : (b.toNat + 256 * ofLe bs) / 256 = ofLe bs := by omega
    rw [List.length_cons, ofLe, le, hmod, hdiv, ih]

/-- A swapped word in memory. -/
theorem le_swap (k x : ℕ) : le k (swap k x) = (le k x).reverse := by
  have h := le_ofLe (le k x).reverse
  rwa [List.length_reverse, length_le] at h

/-- A word loaded and stored swapped. -/
theorem le_swap_ofLe (bs : List UInt8) : le bs.length (swap bs.length (ofLe bs)) = bs.reverse := by
  rw [le_swap, le_ofLe]

/-- The bytes that denote a number are those of its word. -/
theorem ofLe_eq_iff {bs : List UInt8} {k x : ℕ} (hk : bs.length = k) (hx : x < 256 ^ k) :
    ofLe bs = x ↔ le k x = bs := by
  subst hk
  constructor
  · rintro rfl
    exact le_ofLe bs
  · intro h
    rw [← h, ofLe_le_of_lt hx]

theorem swap_swap {k x : ℕ} (h : x < 256 ^ k) : swap k (swap k x) = x := by
  rw [swap, le_swap, List.reverse_reverse, ofLe_le_of_lt h]

/-- The place of a word in an object. -/
structure Field where
  off : ℤ
  size : ℕ
  deriving DecidableEq

/-- Load the word. -/
def Field.get (f : Field) (m : Mem) : ℕ := ofLe (m.read f.off f.size)

/-- Store the word. -/
def Field.set (f : Field) (m : Mem) (x : ℕ) : Mem := m.write f.off (le f.size x)

@[simp] theorem Field.get_set (f : Field) (m : Mem) (x : ℕ) :
    f.get (f.set m x) = x % 256 ^ f.size := by
  have h := m.read_write_self f.off (le f.size x)
  rw [length_le] at h
  rw [get, set, h, ofLe_le]

/-- A store leaves the bytes in front of the word and behind it alone. -/
theorem Field.set_of_lt {f : Field} {i : ℤ} (h : i < f.off) (m : Mem) (x : ℕ) :
    f.set m x i = m i :=
  m.write_of_lt _ h

theorem Field.set_of_ge {f : Field} {i : ℤ} (h : f.off + f.size ≤ i) (m : Mem) (x : ℕ) :
    f.set m x i = m i :=
  m.write_of_ge _ (by rwa [length_le])

/-- A store leaves the words after it alone. -/
theorem Field.get_set_after {f f' : Field} (h : f'.off + f'.size ≤ f.off) (m : Mem) (x : ℕ) :
    f.get (f'.set m x) = f.get m := by
  rw [get, set, Mem.read_write_after _ _ (by rwa [length_le])]
  rfl

/-- Bytes written behind a word leave it alone. -/
theorem Field.get_write_before {f : Field} {a : ℤ} (h : f.off + f.size ≤ a) (m : Mem)
    (bs : List UInt8) : f.get (m.write a bs) = f.get m := by
  rw [get, get, Mem.read_write_before _ _ h]

/-- A store leaves the words before it alone. -/
theorem Field.get_set_before {f f' : Field} (h : f.off + f.size ≤ f'.off) (m : Mem) (x : ℕ) :
    f.get (f'.set m x) = f.get m :=
  get_write_before h m _

/-- A word of one byte. -/
theorem Field.get_byte {f : Field} (h : f.size = 1) (m : Mem) : f.get m = (m f.off).toNat := by
  simp [get, h, Mem.read, ofLe]

/-- A word that is loaded and stored swapped: its bytes are copied in the other order. -/
theorem Field.set_swap_get (f f' : Field) (h : f.size = f'.size) (m m' : Mem) :
    f.set m (swap f'.size (f'.get m')) = m.write f.off (m'.read f'.off f'.size).reverse := by
  have hle := le_swap_ofLe (m'.read f'.off f'.size)
  rw [Mem.length_read] at hle
  rw [set, h, get, hle]

end Words
