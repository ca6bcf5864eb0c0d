import Glouglou.Websock.Format

/-!
# libwebsock: reading the header

`libwebsock_read_header` goes by the state that it left at the last byte.  A frame that holds the
bytes `x` of an unfinished frame (`Holding`) has read of them as much as there is to read, and
the next byte brings it to the next `Holding` (`advance`), unless it is the third one and the
bits of the first two are wrong.
-/

open CString

namespace Libwebsock

/-- The bytes `x` are in the buffer of the frame, which has one of the sizes that it is doubled
to. -/
structure Stored (x : List UInt8) (f : Frame) : Prop where
  idx : f.rawdata_idx = x.length
  data : f.rawdata.read 0 x.length = x
  le : x.length ≤ f.rawdata_sz
  sz : ∃ k ≤ 21, f.rawdata_sz = 1024 * 2 ^ k

/-- The number of bytes from which on the length is known. -/
def lenEnd (x : List UInt8) : ℕ := if extLen x = 8 then 10 else 4

/-- The state of a frame that holds these bytes. -/
def stageOf (x : List UInt8) : FrameState :=
  if x.length < 2 then .sw_start
  else if x.length = 2 then .sw_got_two
  else if x.length < lenEnd x then .sw_got_short_len
  else if x.length < hdrLen x then .sw_got_full_len
  else .sw_loaded_mask

/-- What a frame that holds these bytes has read of them. -/
structure Holding (x : List UInt8) (f : Frame) : Prop extends Stored x f where
  state : f.state = stageOf x
  bits : 3 ≤ x.length → GoodBits x ∧ f.fin = finOf x ∧ f.opcode = opcodeOf x ∧
    f.payload_len_short = shortLen x
  short : 3 ≤ x.length → x.length < lenEnd x → f.mask_offset = 2
  full : 3 ≤ x.length → lenEnd x ≤ x.length → f.mask_offset = 2 + extLen x ∧
    f.payload_offset = hdrLen x ∧ f.payload_len = lenOf x
  mask : 3 ≤ x.length → hdrLen x ≤ x.length → f.mask = maskOf x

/-! ### The buffer -/

theorem Stored.get {x : List UInt8} {f : Frame} (h : Stored x f) {i : ℕ} (hi : i < x.length) :
    f.rawdata i = x.getD i 0 := by
  have hget := f.rawdata.getElem?_read 0 hi
  rw [h.data, zero_add] at hget
  rw [List.getD_eq_getElem?_getD, hget]
  rfl

theorem Stored.read {x : List UInt8} {f : Frame} (h : Stored x f) {a k : ℕ}
    (hle : a + k ≤ x.length) : f.rawdata.read a k = (x.drop a).take k := by
  have hdrop := f.rawdata.drop_read 0 (show a ≤ x.length by omega)
  rw [h.data, zero_add] at hdrop
  rw [hdrop, Mem.take_read _ _ (by omega)]

/-- A byte is stored, and nothing else changes. -/
theorem push_stored {x : List UInt8} {f : Frame} (h : Stored x f) (b : UInt8)
    (hlt : x.length < 2 ^ 31) :
    ∃ g, f.push b = .ok g ∧ Stored (x ++ [b]) g ∧ g = { f with
      rawdata_sz := g.rawdata_sz, rawdata := g.rawdata, rawdata_idx := g.rawdata_idx } := by
  obtain ⟨k, hk, hsz⟩ := h.sz
  have hpow : 2 ^ k ≤ 2 ^ 21 := Nat.pow_le_pow_right (by norm_num) hk
  -- the size after the doubling, if there is one
  have hnew : ∃ k' ≤ 21, (if f.rawdata_sz ≤ f.rawdata_idx then u32 (f.rawdata_sz + f.rawdata_sz)
      else f.rawdata_sz) = 1024 * 2 ^ k' ∧ x.length < 1024 * 2 ^ k' := by
    have hle := h.le
    rw [h.idx]
    by_cases hfull : f.rawdata_sz ≤ x.length
    · have hk' : k + 1 ≤ 21 := by
        by_contra hno
        have h21 : k = 21 := by omega
        rw [hsz, h21] at hfull
        omega
      have hpow' : 2 ^ (k + 1) ≤ 2 ^ 21 := Nat.pow_le_pow_right (by norm_num) hk'
      refine ⟨k + 1, hk', ?_, ?_⟩
      · rw [if_pos hfull, hsz, u32, pow_succ, Nat.mod_eq_of_lt (by omega)]
        ring
      · have hpos : 0 < 2 ^ k := by positivity
        rw [pow_succ]
        omega
    · exact ⟨k, hk, by rw [if_neg hfull, hsz], by omega⟩
  obtain ⟨k', hk', hsz', hlt'⟩ := hnew
  unfold Frame.push
  simp only [hsz']
  rw [h.idx, if_neg (by omega)]
  refine ⟨_, rfl, ⟨?_, ?_, ?_, k', hk', rfl⟩, rfl⟩
  · show u32 (x.length + 1) = _
    rw [u32, Nat.mod_eq_of_lt (by omega), List.length_append, List.length_singleton]
  · show (f.rawdata.write x.length [b]).read 0 (x ++ [b]).length = _
    have happ := f.rawdata.read_write_append 0 x.length [b]
    rw [zero_add, h.data] at happ
    rw [List.length_append]
    exact happ
  · show (x ++ [b]).length ≤ 1024 * 2 ^ k'
    rw [List.length_append, List.length_singleton]
    omega

/-- The other members of a frame say nothing of its buffer. -/
theorem Stored.congr {x : List UInt8} {f g : Frame} (h : Stored x f)
    (hidx : g.rawdata_idx = f.rawdata_idx) (hsz : g.rawdata_sz = f.rawdata_sz)
    (hdata : g.rawdata = f.rawdata) : Stored x g where
  idx := hidx.trans h.idx
  data := by rw [hdata, h.data]
  le := by rw [hsz]; exact h.le
  sz := by rw [hsz]; exact h.sz

/-! ### The stages -/

theorem lenEnd_append {x : List UInt8} (y : List UInt8) (h : 2 ≤ x.length) :
    lenEnd (x ++ y) = lenEnd x := by
  rw [lenEnd, lenEnd, extLen_append y h]

theorem lenEnd_lt (x : List UInt8) : 4 ≤ lenEnd x ∧ 2 + extLen x ≤ lenEnd x ∧
    lenEnd x < hdrLen x := by
  unfold lenEnd hdrLen
  rcases extLen_cases x with ⟨he, -⟩ | ⟨he, -⟩ | ⟨he, -⟩ <;> rw [he] <;> norm_num

theorem stageOf_start {x : List UInt8} (h : x.length < 2) : stageOf x = .sw_start := if_pos h

theorem stageOf_two {x : List UInt8} (h : x.length = 2) : stageOf x = .sw_got_two := by
  rw [stageOf, if_neg (by omega), if_pos h]

theorem stageOf_short {x : List UInt8} (h : 3 ≤ x.length) (h' : x.length < lenEnd x) :
    stageOf x = .sw_got_short_len := by
  rw [stageOf, if_neg (by omega), if_neg (by omega), if_pos h']

theorem stageOf_full {x : List UInt8} (h : lenEnd x ≤ x.length) (h' : x.length < hdrLen x) :
    stageOf x = .sw_got_full_len := by
  have := (lenEnd_lt x).1
  rw [stageOf, if_neg (by omega), if_neg (by omega), if_neg (by omega), if_pos h']

theorem stageOf_loaded {x : List UInt8} (h : hdrLen x ≤ x.length) :
    stageOf x = .sw_loaded_mask := by
  obtain ⟨h4, -, hlt⟩ := lenEnd_lt x
  rw [stageOf, if_neg (by omega), if_neg (by omega), if_neg (by omega), if_neg (by omega)]

/-- The turn of the loop on the header of a frame in which a byte was stored. -/
def header (g : Frame) : ℤ × Frame :=
  if g.state = .sw_loaded_mask then (1, g) else libwebsock_read_header g

/-- What the turn makes of a frame that held `x`, now that it has the bytes `x'`. -/
def Advanced (x' : List UInt8) (g : Frame) (r : ℤ × Frame) : Prop :=
  (x'.length = 3 ∧ ¬ GoodBits x' ∧ r = (-1, g)) ∨
  ((x'.length < 3 ∨ (GoodBits x' ∧ x'.length < hdrLen x')) ∧ r.1 = 0 ∧ Holding x' r.2) ∨
  (GoodBits x' ∧ 3 ≤ x'.length ∧ hdrLen x' ≤ x'.length ∧ r.1 = 1 ∧ Holding x' r.2)

/-- The first two bytes. -/
theorem advance_two {x : List UInt8} {b : UInt8} {g : Frame} (hst : Stored (x ++ [b]) g)
    (hstate : g.state = stageOf x) (hx : x.length < 2) :
    Advanced (x ++ [b]) g (header g) := by
  have hlen : (x ++ [b]).length = x.length + 1 := by
    rw [List.length_append, List.length_singleton]
  have hidx := hst.idx
  rw [stageOf_start hx] at hstate
  have hread : header g = libwebsock_read_header g := if_neg (by rw [hstate]; decide)
  rw [hread, libwebsock_read_header, hstate]
  refine .inr (.inl ⟨.inl (by omega), ?_⟩)
  by_cases h1 : x.length = 0
  · simp only [if_pos (show g.rawdata_idx < 2 by omega)]
    exact ⟨trivial, hst, by rw [stageOf_start (by omega), hstate], by omega, by omega, by omega,
      by omega⟩
  · simp only [if_neg (show ¬ g.rawdata_idx < 2 by omega)]
    exact ⟨trivial, hst.congr rfl rfl rfl, by rw [stageOf_two (by omega)], by omega, by omega,
      by omega, by omega⟩

/-- The third byte: the bits of the first two are looked at. -/
theorem advance_three {x : List UInt8} {b : UInt8} {g : Frame} (hst : Stored (x ++ [b]) g)
    (hstate : g.state = stageOf x) (hx : x.length = 2) :
    Advanced (x ++ [b]) g (header g) := by
  have hlen : (x ++ [b]).length = 3 := by
    rw [List.length_append, List.length_singleton, hx]
  have h0 : g.rawdata 0 = (x ++ [b]).getD 0 0 := hst.get (i := 0) (by omega)
  have h1 : g.rawdata 1 = (x ++ [b]).getD 1 0 := hst.get (i := 1) (by omega)
  obtain ⟨h4, -, hend⟩ := lenEnd_lt (x ++ [b])
  rw [stageOf_two hx] at hstate
  have hread : header g = libwebsock_read_header g := if_neg (by rw [hstate]; decide)
  rw [hread, libwebsock_read_header, hstate]
  simp only [h0, h1]
  by_cases hbits : ((x ++ [b]).getD 0 0).toNat &&& 0x70 ≠ 0
  · rw [if_pos hbits]
    exact .inl ⟨hlen, fun hg => hbits hg.1, rfl⟩
  by_cases hmask : ((x ++ [b]).getD 1 0).toNat &&& 0x80 ≠ 0x80
  · rw [if_neg hbits, if_pos hmask]
    exact .inl ⟨hlen, fun hg => hmask hg.2, rfl⟩
  · rw [if_neg hbits, if_neg hmask]
    have hgood : GoodBits (x ++ [b]) := ⟨not_not.1 hbits, not_not.1 hmask⟩
    refine .inr (.inl ⟨.inr ⟨hgood, by omega⟩, rfl, hst.congr rfl rfl rfl, ?_, ?_, ?_, ?_, ?_⟩)
    · rw [stageOf_short (by omega) (by omega)]
    · exact fun _ => ⟨hgood, rfl, rfl, rfl⟩
    · exact fun _ _ => rfl
    · intro _ h
      omega
    · intro _ h
      omega

theorem lenOf_short {x : List UInt8} (h : extLen x = 0) : lenOf x = shortLen x := if_pos h

theorem lenOf_ext {x : List UInt8} (h : extLen x ≠ 0) :
    lenOf x = be ((x.drop 2).take (extLen x)) := if_neg h

/-- A byte while the length is awaited. -/
theorem advance_short {x : List UInt8} {f g : Frame} {b : UInt8} (h : Holding x f)
    (hst : Stored (x ++ [b]) g) (hg : g = { f with
      rawdata_sz := g.rawdata_sz, rawdata := g.rawdata, rawdata_idx := g.rawdata_idx })
    (hx : 3 ≤ x.length) (hend : x.length < lenEnd x) :
    Advanced (x ++ [b]) g (header g) := by
  have hlen : (x ++ [b]).length = x.length + 1 := by
    rw [List.length_append, List.length_singleton]
  have hidx := hst.idx
  obtain ⟨hgood, hfin, hop, hshort⟩ := h.bits hx
  have hstate : g.state = .sw_got_short_len := by
    rw [hg]
    exact h.state.trans (stageOf_short hx hend)
  have hoff : g.mask_offset = 2 := by
    rw [hg]
    exact h.short hx hend
  have hshort : g.payload_len_short = shortLen (x ++ [b]) := by
    rw [hg, shortLen_append _ (by omega)]
    exact hshort
  have hgood' : GoodBits (x ++ [b]) := (goodBits_append _ (by omega)).2 hgood
  have hbits : g.fin = finOf (x ++ [b]) ∧ g.opcode = opcodeOf (x ++ [b]) := by
    rw [hg, finOf_append _ (by omega), opcodeOf_append _ (by omega)]
    exact ⟨hfin, hop⟩
  obtain ⟨h4, h2, hlt⟩ := lenEnd_lt (x ++ [b])
  rw [← lenEnd_append [b] (by omega)] at hend
  have hread : header g = libwebsock_read_header g := if_neg (by rw [hstate]; decide)
  rw [hread, libwebsock_read_header, hstate]
  refine .inr (.inl ⟨.inr ⟨hgood', by omega⟩, ?_⟩)
  simp only [hoff, hshort]
  rcases extLen_cases (x ++ [b]) with ⟨he, h126, h127⟩ | ⟨he, h126⟩ | ⟨he, h127⟩
  · have hend' : lenEnd (x ++ [b]) = 4 := if_neg (by omega)
    rw [if_neg h126, if_neg h127]
    refine ⟨rfl, hst.congr rfl rfl rfl, ?_, ?_, ?_, ?_, ?_⟩
    · rw [stageOf_full (by omega) (by omega)]
    · exact fun _ => ⟨hgood', hbits.1, hbits.2, rfl⟩
    · intro _ hlt'
      omega
    · intro _ _
      rw [hdrLen, he, lenOf_short he]
      exact ⟨rfl, rfl, rfl⟩
    · intro _ hge
      omega
  · have hend' : lenEnd (x ++ [b]) = 4 := if_neg (by omega)
    have hword : g.rawdata.read 2 2 = ((x ++ [b]).drop 2).take 2 :=
      hst.read (a := 2) (k := 2) (by omega)
    rw [if_pos h126, if_neg (by omega)]
    refine ⟨rfl, hst.congr rfl rfl rfl, ?_, ?_, ?_, ?_, ?_⟩
    · rw [stageOf_full (by omega) (by omega)]
    · exact fun _ => ⟨hgood', hbits.1, hbits.2, rfl⟩
    · intro _ hlt'
      omega
    · intro _ _
      rw [hdrLen, lenOf_ext (by omega), he, ← hword]
      exact ⟨rfl, rfl, rfl⟩
    · intro _ hge
      omega
  · have hend' : lenEnd (x ++ [b]) = 10 := if_pos he
    rw [if_neg (by omega), if_pos h127]
    by_cases h10 : g.rawdata_idx < 10
    · rw [if_pos h10]
      refine ⟨rfl, hst, ?_, ?_, ?_, ?_, ?_⟩
      · rw [stageOf_short (by omega) (by omega), hstate]
      · exact fun _ => ⟨hgood', hbits.1, hbits.2, hshort⟩
      · exact fun _ _ => hoff
      · intro _ hge
        omega
      · intro _ hge
        omega
    · have hword : g.rawdata.read 2 8 = ((x ++ [b]).drop 2).take 8 :=
        hst.read (a := 2) (k := 8) (by omega)
      rw [if_neg h10]
      refine ⟨rfl, hst.congr rfl rfl rfl, ?_, ?_, ?_, ?_, ?_⟩
      · rw [stageOf_full (by omega) (by omega)]
      · exact fun _ => ⟨hgood', hbits.1, hbits.2, rfl⟩
      · intro _ hlt'
        omega
      · intro _ _
        rw [hdrLen, lenOf_ext (by omega), he, ← hword]
        exact ⟨rfl, rfl, rfl⟩
      · intro _ hge
        omega

/-- A byte while the mask is awaited, and those after it. -/
theorem advance_full {x : List UInt8} {f g : Frame} {b : UInt8} (h : Holding x f)
    (hst : Stored (x ++ [b]) g) (hg : g = { f with
      rawdata_sz := g.rawdata_sz, rawdata := g.rawdata, rawdata_idx := g.rawdata_idx })
    (hx : 3 ≤ x.length) (hend : lenEnd x ≤ x.length) :
    Advanced (x ++ [b]) g (header g) := by
  have hlen : (x ++ [b]).length = x.length + 1 := by
    rw [List.length_append, List.length_singleton]
  have hidx := hst.idx
  obtain ⟨hgood, hfin, hop, hshort⟩ := h.bits hx
  obtain ⟨hmask, hoff, hplen⟩ := h.full hx hend
  have hgood' : GoodBits (x ++ [b]) := (goodBits_append _ (by omega)).2 hgood
  have hbits : g.fin = finOf (x ++ [b]) ∧ g.opcode = opcodeOf (x ++ [b]) ∧
      g.payload_len_short = shortLen (x ++ [b]) := by
    rw [hg, finOf_append _ (by omega), opcodeOf_append _ (by omega), shortLen_append _ (by omega)]
    exact ⟨hfin, hop, hshort⟩
  obtain ⟨h4, h2, hlt⟩ := lenEnd_lt (x ++ [b])
  have hend' : lenEnd (x ++ [b]) = lenEnd x := lenEnd_append _ (by omega)
  have hext : extLen (x ++ [b]) = extLen x := extLen_append _ (by omega)
  have hhdr : hdrLen (x ++ [b]) = hdrLen x := hdrLen_append _ (by omega)
  have hfull : g.mask_offset = 2 + extLen (x ++ [b]) ∧ g.payload_offset = hdrLen (x ++ [b]) ∧
      g.payload_len = lenOf (x ++ [b]) := by
    rw [hg, hext, hhdr, lenOf_append _ (by omega) (by omega)]
    exact ⟨hmask, hoff, hplen⟩
  have hle : hdrLen (x ++ [b]) = 2 + extLen (x ++ [b]) + 4 := by
    rw [hdrLen]
    omega
  by_cases hload : hdrLen x ≤ x.length
  · have hstate : g.state = .sw_loaded_mask := by
      rw [hg]
      exact h.state.trans (stageOf_loaded hload)
    have hm : g.mask = maskOf (x ++ [b]) := by
      rw [hg, maskOf_append _ hload]
      exact h.mask hx hload
    rw [header, if_pos hstate]
    refine .inr (.inr ⟨hgood', by omega, by omega, rfl, hst, ?_, ?_, ?_, ?_, ?_⟩)
    · rw [stageOf_loaded (by omega), hstate]
    · exact fun _ => ⟨hgood', hbits⟩
    · intro _ hlt'
      omega
    · exact fun _ _ => hfull
    · exact fun _ _ => hm
  · have hstate : g.state = .sw_got_full_len := by
      rw [hg]
      exact h.state.trans (stageOf_full hend (by omega))
    have hu : u32 (g.mask_offset + MASK_LENGTH) = hdrLen (x ++ [b]) := by
      rw [hfull.1, MASK_LENGTH, ← hle, u32, Nat.mod_eq_of_lt]
      rcases extLen_cases (x ++ [b]) with ⟨he, -⟩ | ⟨he, -⟩ | ⟨he, -⟩ <;> omega
    have hread : header g = libwebsock_read_header g := if_neg (by rw [hstate]; decide)
    rw [hread, libwebsock_read_header, hstate]
    simp only [hu]
    by_cases hfew : g.rawdata_idx < hdrLen (x ++ [b])
    · rw [if_pos hfew]
      refine .inr (.inl ⟨.inr ⟨hgood', by omega⟩, rfl, hst, ?_, ?_, ?_, ?_, ?_⟩)
      · rw [stageOf_full (by omega) (by omega), hstate]
      · exact fun _ => ⟨hgood', hbits⟩
      · intro _ hlt'
        omega
      · exact fun _ _ => hfull
      · intro _ hge
        omega
    · have hm : g.rawdata.read g.mask_offset MASK_LENGTH = maskOf (x ++ [b]) := by
        rw [hfull.1, maskOf]
        exact hst.read (by unfold MASK_LENGTH; omega)
      rw [if_neg hfew]
      refine .inr (.inr
        ⟨hgood', by omega, by omega, rfl, hst.congr rfl rfl rfl, ?_, ?_, ?_, ?_, ?_⟩)
      · rw [stageOf_loaded (by omega)]
      · exact fun _ => ⟨hgood', hbits⟩
      · intro _ hlt'
        omega
      · exact fun _ _ => hfull
      · exact fun _ _ => hm

/-- One byte. -/
theorem advance {x : List UInt8} {f : Frame} (h : Holding x f) (b : UInt8)
    (hlt : x.length < 2 ^ 31) :
    ∃ g, f.push b = .ok g ∧ Advanced (x ++ [b]) g (header g) := by
  obtain ⟨g, hpush, hst, hg⟩ := push_stored h.toStored b hlt
  have hstate : g.state = stageOf x := by
    rw [hg]
    exact h.state
  refine ⟨g, hpush, ?_⟩
  by_cases h2 : x.length < 2
  · exact advance_two hst hstate h2
  by_cases h3 : x.length = 2
  · exact advance_three hst hstate h3
  by_cases hend : x.length < lenEnd x
  · exact advance_short h hst hg (by omega) hend
  · exact advance_full h hst hg (by omega) (by omega)

end Libwebsock
