import Mathlib.Tactic

/-!
# UTF-8, byte by byte

`String.utf8EncodeChar` says what the encoding of a character is; a reader that goes through the
bytes needs to know which may follow which.  After the first byte of a character of several, the
second has a range that depends on it (`lead`), and any others are in the range of all
continuation bytes (`Tail`).

* `WellFormed`: the sequences that obey these ranges, and `point`, the value they spell;
* `wellFormed_encode`, `point_encode`, `exists_char`: they are the encodings of the characters;
* `Text`: the encodings of lists of characters.
-/

namespace Utf8

/-- A byte that continues a character. -/
def Tail (b : UInt8) : Prop := 0x80 ≤ b.toNat ∧ b.toNat ≤ 0xBF

/-- What the first byte of a character of several says of the others: the range of the second
and how many follow it. -/
structure Lead where
  lo : ℕ
  hi : ℕ
  more : ℕ
  deriving DecidableEq

/-- The first bytes of the characters of several. -/
def lead (a : UInt8) : Option Lead :=
  if a.toNat < 0xC2 then none
  else if a.toNat < 0xE0 then some ⟨0x80, 0xBF, 0⟩
  else if a.toNat = 0xE0 then some ⟨0xA0, 0xBF, 1⟩
  else if a.toNat = 0xED then some ⟨0x80, 0x9F, 1⟩
  else if a.toNat < 0xF0 then some ⟨0x80, 0xBF, 1⟩
  else if a.toNat = 0xF0 then some ⟨0x90, 0xBF, 2⟩
  else if a.toNat < 0xF4 then some ⟨0x80, 0xBF, 2⟩
  else if a.toNat = 0xF4 then some ⟨0x80, 0x8F, 2⟩
  else none

/-- The bytes of one character. -/
def WellFormed : List UInt8 → Prop
  | [] => False
  | [a] => a.toNat < 0x80
  | a :: b :: t =>
    ∃ e ∈ lead a, e.lo ≤ b.toNat ∧ b.toNat ≤ e.hi ∧ t.length = e.more ∧ ∀ c ∈ t, Tail c

/-- What the first byte contributes to the value. -/
def payload (a : UInt8) : ℕ :=
  if a.toNat < 0x80 then a.toNat
  else if a.toNat < 0xE0 then a.toNat - 0xC0
  else if a.toNat < 0xF0 then a.toNat - 0xE0
  else a.toNat - 0xF0

/-- The value with the bits of one more byte. -/
def shift (v : ℕ) (b : UInt8) : ℕ := v * 64 + (b.toNat - 0x80)

/-- The value that the bytes of a character spell. -/
def point : List UInt8 → ℕ
  | [] => 0
  | a :: t => t.foldl shift (payload a)

/-- The encodings of lists of characters. -/
def Text (l : List UInt8) : Prop := ∃ cs : List Char, l = cs.flatMap String.utf8EncodeChar

theorem char_bounds (c : Char) :
    c.val.toNat < 0xD800 ∨ (0xDFFF < c.val.toNat ∧ c.val.toNat < 0x110000) := c.valid

/-- The encoding of a character, by the size of its value. -/
theorem encode_cases (c : Char) :
    let v := c.val.toNat
    (v < 0x80 ∧ String.utf8EncodeChar c = [UInt8.ofNat v]) ∨
    (0x80 ≤ v ∧ v < 0x800 ∧ String.utf8EncodeChar c =
      [UInt8.ofNat (v / 64 + 0xC0), UInt8.ofNat (v % 64 + 0x80)]) ∨
    (0x800 ≤ v ∧ v < 0x10000 ∧ String.utf8EncodeChar c =
      [UInt8.ofNat (v / 4096 + 0xE0), UInt8.ofNat (v / 64 % 64 + 0x80),
        UInt8.ofNat (v % 64 + 0x80)]) ∨
    (0x10000 ≤ v ∧ String.utf8EncodeChar c =
      [UInt8.ofNat (v / 262144 + 0xF0), UInt8.ofNat (v / 4096 % 64 + 0x80),
        UInt8.ofNat (v / 64 % 64 + 0x80), UInt8.ofNat (v % 64 + 0x80)]) := by
  intro v
  have hv := char_bounds c
  rw [show String.utf8EncodeChar c = _ from rfl]
  unfold String.utf8EncodeChar
  simp only
  by_cases h1 : v ≤ 0x7f
  · exact .inl ⟨by omega, if_pos h1⟩
  by_cases h2 : v ≤ 0x7ff
  · refine .inr (.inl ⟨by omega, by omega, ?_⟩)
    rw [if_neg h1, if_pos h2, Nat.mod_eq_of_lt (show v / 64 < 0x20 by omega)]
  by_cases h3 : v ≤ 0xffff
  · refine .inr (.inr (.inl ⟨by omega, by omega, ?_⟩))
    rw [if_neg h1, if_neg h2, if_pos h3,
      Nat.mod_eq_of_lt (show v / 4096 < 0x10 by omega)]
  · refine .inr (.inr (.inr ⟨by omega, ?_⟩))
    rw [if_neg h1, if_neg h2, if_neg h3,
      Nat.mod_eq_of_lt (show v / 262144 < 0x08 by omega)]

/-! ### The encodings are well formed, and nothing else is -/

theorem toNat_ofNat {n : ℕ} (h : n < 256) : (UInt8.ofNat n).toNat = n :=
  UInt8.toNat_ofNat_of_lt' h

theorem toNat_tail (x : ℕ) : (UInt8.ofNat (x % 64 + 0x80)).toNat = x % 64 + 0x80 :=
  toNat_ofNat (by omega)

theorem tail_ofNat (x : ℕ) : Tail (UInt8.ofNat (x % 64 + 0x80)) := by
  rw [Tail, toNat_tail]
  omega

theorem shift_ofNat (v x : ℕ) : shift v (UInt8.ofNat (x % 64 + 0x80)) = v * 64 + x % 64 := by
  have hx := toNat_tail x
  unfold shift
  omega

theorem wellFormed_encode (c : Char) : WellFormed (String.utf8EncodeChar c) := by
  have hv := char_bounds c
  rcases encode_cases c with ⟨h, he⟩ | ⟨h, h', he⟩ | ⟨h, h', he⟩ | ⟨h, he⟩
  · rw [he]
    show (UInt8.ofNat c.val.toNat).toNat < 0x80
    rw [toNat_ofNat (by omega)]
    exact h
  · have ha : (UInt8.ofNat (c.val.toNat / 64 + 0xC0)).toNat = c.val.toNat / 64 + 0xC0 :=
      toNat_ofNat (by omega)
    have hlead : lead (UInt8.ofNat (c.val.toNat / 64 + 0xC0)) = some ⟨0x80, 0xBF, 0⟩ := by
      rw [lead, ha, if_neg (by omega), if_pos (by omega)]
    rw [he]
    exact ⟨_, hlead, (tail_ofNat _).1, (tail_ofNat _).2, rfl, by simp⟩
  · have ha : (UInt8.ofNat (c.val.toNat / 4096 + 0xE0)).toNat = c.val.toNat / 4096 + 0xE0 :=
      toNat_ofNat (by omega)
    have ht : ∀ b ∈ [UInt8.ofNat (c.val.toNat % 64 + 0x80)], Tail b :=
      fun b hb => List.mem_singleton.1 hb ▸ tail_ofNat _
    -- the least and the greatest second byte leave out what is shorter, and the surrogates
    have hlead : ∃ lo hi, lead (UInt8.ofNat (c.val.toNat / 4096 + 0xE0)) = some ⟨lo, hi, 1⟩ ∧
        lo ≤ c.val.toNat / 64 % 64 + 0x80 ∧ c.val.toNat / 64 % 64 + 0x80 ≤ hi := by
      rw [lead, ha, if_neg (by omega), if_neg (by omega)]
      by_cases h1 : c.val.toNat / 4096 + 0xE0 = 0xE0
      · rw [if_pos h1]
        exact ⟨_, _, rfl, by omega, by omega⟩
      by_cases h2 : c.val.toNat / 4096 + 0xE0 = 0xED
      · rw [if_neg h1, if_pos h2]
        exact ⟨_, _, rfl, by omega, by omega⟩
      · rw [if_neg h1, if_neg h2, if_pos (by omega)]
        exact ⟨_, _, rfl, by omega, by omega⟩
    obtain ⟨lo, hi, hlead, hlo, hhi⟩ := hlead
    rw [← toNat_tail] at hlo hhi
    rw [he]
    exact ⟨_, hlead, hlo, hhi, rfl, ht⟩
  · have ha : (UInt8.ofNat (c.val.toNat / 262144 + 0xF0)).toNat = c.val.toNat / 262144 + 0xF0 :=
      toNat_ofNat (by omega)
    have ht : ∀ b ∈ [UInt8.ofNat (c.val.toNat / 64 % 64 + 0x80),
        UInt8.ofNat (c.val.toNat % 64 + 0x80)], Tail b := by
      intro b hb
      rcases List.mem_cons.1 hb with rfl | hb
      · exact tail_ofNat _
      · rw [List.mem_singleton.1 hb]
        exact tail_ofNat _
    have hlead : ∃ lo hi, lead (UInt8.ofNat (c.val.toNat / 262144 + 0xF0)) = some ⟨lo, hi, 2⟩ ∧
        lo ≤ c.val.toNat / 4096 % 64 + 0x80 ∧ c.val.toNat / 4096 % 64 + 0x80 ≤ hi := by
      rw [lead, ha, if_neg (by omega), if_neg (by omega), if_neg (by omega), if_neg (by omega),
        if_neg (by omega)]
      by_cases h1 : c.val.toNat / 262144 + 0xF0 = 0xF0
      · rw [if_pos h1]
        exact ⟨_, _, rfl, by omega, by omega⟩
      by_cases h2 : c.val.toNat / 262144 + 0xF0 < 0xF4
      · rw [if_neg h1, if_pos h2]
        exact ⟨_, _, rfl, by omega, by omega⟩
      · rw [if_neg h1, if_neg h2, if_pos (by omega)]
        exact ⟨_, _, rfl, by omega, by omega⟩
    obtain ⟨lo, hi, hlead, hlo, hhi⟩ := hlead
    rw [← toNat_tail] at hlo hhi
    rw [he]
    exact ⟨_, hlead, hlo, hhi, rfl, ht⟩

theorem point_encode (c : Char) : point (String.utf8EncodeChar c) = c.val.toNat := by
  have hv := char_bounds c
  rcases encode_cases c with ⟨h, he⟩ | ⟨h, h', he⟩ | ⟨h, h', he⟩ | ⟨h, he⟩
  · rw [he, point, payload, toNat_ofNat (by omega), if_pos h]
    rfl
  · rw [he, point, payload, toNat_ofNat (by omega), if_neg (by omega), if_pos (by omega)]
    simp only [List.foldl_cons, List.foldl_nil, shift_ofNat]
    omega
  · rw [he, point, payload, toNat_ofNat (by omega), if_neg (by omega), if_neg (by omega),
      if_pos (by omega)]
    simp only [List.foldl_cons, List.foldl_nil, shift_ofNat]
    omega
  · rw [he, point, payload, toNat_ofNat (by omega), if_neg (by omega), if_neg (by omega),
      if_neg (by omega)]
    simp only [List.foldl_cons, List.foldl_nil, shift_ofNat]
    omega

/-- A byte is the one that its value makes. -/
theorem ofNat_eq {b : UInt8} {n : ℕ} (h : b.toNat = n) : UInt8.ofNat n = b := by
  rw [← h, UInt8.ofNat_toNat]

/-- A value that is one of a character. -/
theorem exists_char_val {v : ℕ} (h : v < 0xD800 ∨ (0xDFFF < v ∧ v < 0x110000)) :
    ∃ c : Char, c.val.toNat = v :=
  ⟨Char.ofNatAux v h, rfl⟩

/-- What a first byte of several is, by the range that it gives the second. -/
theorem lead_bounds {a : UInt8} {e : Lead} (h : lead a = some e) :
    0x80 ≤ e.lo ∧ e.hi ≤ 0xBF ∧
    ((e.more = 0 ∧ 0xC2 ≤ a.toNat ∧ a.toNat < 0xE0) ∨
      (e.more = 1 ∧ 0xE0 ≤ a.toNat ∧ a.toNat < 0xF0 ∧ (a.toNat = 0xE0 → 0xA0 ≤ e.lo) ∧
        (a.toNat = 0xED → e.hi ≤ 0x9F)) ∨
      (e.more = 2 ∧ 0xF0 ≤ a.toNat ∧ a.toNat ≤ 0xF4 ∧ (a.toNat = 0xF0 → 0x90 ≤ e.lo) ∧
        (a.toNat = 0xF4 → e.hi ≤ 0x8F))) := by
  unfold lead at h
  split_ifs at h <;>
    · simp only [Option.some.injEq] at h
      subst h
      dsimp only
      omega

theorem exists_char {l : List UInt8} (h : WellFormed l) :
    ∃ c : Char, String.utf8EncodeChar c = l := by
  rcases l with _ | ⟨a, _ | ⟨b, t⟩⟩
  · exact h.elim
  · have ha : a.toNat < 0x80 := h
    obtain ⟨c, hc⟩ := exists_char_val (v := a.toNat) (by omega)
    refine ⟨c, ?_⟩
    rcases encode_cases c with ⟨_, he⟩ | ⟨_, _, _⟩ | ⟨_, _, _⟩ | ⟨_, _⟩
    · rw [he, ofNat_eq hc.symm]
    all_goals omega
  · obtain ⟨e, he, hlo, hhi, hmore, htail⟩ := h
    obtain ⟨h80, hBF, ⟨hm, ha, ha'⟩ | ⟨hm, ha, ha', hE0, hED⟩ | ⟨hm, ha, ha', hF0, hF4⟩⟩ :=
      lead_bounds he
    · rw [hm, List.length_eq_zero_iff] at hmore
      subst hmore
      obtain ⟨c, hc⟩ := exists_char_val (v := (a.toNat - 0xC0) * 64 + (b.toNat - 0x80)) (by omega)
      refine ⟨c, ?_⟩
      rcases encode_cases c with ⟨_, _⟩ | ⟨_, _, he'⟩ | ⟨_, _, _⟩ | ⟨_, _⟩
      · omega
      · rw [he', ofNat_eq (b := a) (by omega), ofNat_eq (b := b) (by omega)]
      all_goals omega
    · rw [hm, List.length_eq_one_iff] at hmore
      obtain ⟨d, rfl⟩ := hmore
      have hd := htail d List.mem_cons_self
      unfold Tail at hd
      obtain ⟨c, hc⟩ := exists_char_val
        (v := ((a.toNat - 0xE0) * 64 + (b.toNat - 0x80)) * 64 + (d.toNat - 0x80)) (by omega)
      refine ⟨c, ?_⟩
      rcases encode_cases c with ⟨_, _⟩ | ⟨_, _, _⟩ | ⟨_, _, he'⟩ | ⟨_, _⟩
      · omega
      · omega
      · rw [he', ofNat_eq (b := a) (by omega), ofNat_eq (b := b) (by omega),
          ofNat_eq (b := d) (by omega)]
      · omega
    · rw [hm, List.length_eq_two] at hmore
      obtain ⟨d, f, rfl⟩ := hmore
      have hd := htail d List.mem_cons_self
      have hf := htail f (List.mem_cons_of_mem _ List.mem_cons_self)
      unfold Tail at hd hf
      obtain ⟨c, hc⟩ := exists_char_val
        (v := (((a.toNat - 0xF0) * 64 + (b.toNat - 0x80)) * 64 + (d.toNat - 0x80)) * 64 +
          (f.toNat - 0x80)) (by omega)
      refine ⟨c, ?_⟩
      rcases encode_cases c with ⟨_, _⟩ | ⟨_, _, _⟩ | ⟨_, _, _⟩ | ⟨_, he'⟩
      · omega
      · omega
      · omega
      · rw [he', ofNat_eq (b := a) (by omega), ofNat_eq (b := b) (by omega),
          ofNat_eq (b := d) (by omega), ofNat_eq (b := f) (by omega)]

/-! ### Text -/

theorem text_nil : Text [] := ⟨[], rfl⟩

/-- A text is a character in front of a text. -/
theorem text_append {w l : List UInt8} (hw : WellFormed w) (hl : Text l) : Text (w ++ l) := by
  obtain ⟨c, rfl⟩ := exists_char hw
  obtain ⟨cs, rfl⟩ := hl
  exact ⟨c :: cs, rfl⟩

theorem Text.cases {l : List UInt8} (h : Text l) :
    l = [] ∨ ∃ w t, l = w ++ t ∧ WellFormed w ∧ Text t := by
  obtain ⟨cs, rfl⟩ := h
  rcases cs with _ | ⟨c, cs⟩
  · exact .inl rfl
  · exact .inr ⟨_, _, rfl, wellFormed_encode c, cs, rfl⟩

end Utf8
