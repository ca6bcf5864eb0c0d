import Mathlib.Data.List.GetD
import Glouglou.Lib.PrefixCode
import Glouglou.Websock.Basic

/-!
# libwebsock: frames on the wire

What the bytes of a frame say, read off all of them at once, where `libwebsock_read_header` goes
by the state it left at the last byte.

* `finOf`, `opcodeOf`, `lenOf`, `maskOf`, `payloadOf`: the fields of a frame;
* `IsFrame`: the byte strings that are frames, `Unfinished`: their beginnings;
* `frames_unique`: a stream is cut into frames in one way.
-/

open CString PrefixCode

namespace Libwebsock

/-- The bits that must be clear are, and there is a mask. -/
def GoodBits (x : List UInt8) : Prop :=
  (x.getD 0 0).toNat &&& 0x70 = 0 ∧ (x.getD 1 0).toNat &&& 0x80 = 0x80

instance : DecidablePred GoodBits := fun _ => inferInstanceAs (Decidable (_ ∧ _))

def finOf (x : List UInt8) : ℕ := if (x.getD 0 0).toNat &&& 0x80 = 0x80 then 1 else 0

def opcodeOf (x : List UInt8) : ℕ := (x.getD 0 0).toNat &&& 0xf

/-- The length in the second byte, or the code of a longer one. -/
def shortLen (x : List UInt8) : ℕ := (x.getD 1 0).toNat &&& 0x7f

/-- The number of bytes of the extended length. -/
def extLen (x : List UInt8) : ℕ :=
  if shortLen x = 126 then 2 else if shortLen x = 127 then 8 else 0

/-- The number of bytes of the header. -/
def hdrLen (x : List UInt8) : ℕ := 6 + extLen x

/-- The number of bytes of the payload. -/
def lenOf (x : List UInt8) : ℕ :=
  if extLen x = 0 then shortLen x else be ((x.drop 2).take (extLen x))

def maskOf (x : List UInt8) : List UInt8 := (x.drop (2 + extLen x)).take MASK_LENGTH

/-- A payload and the mask, put together byte by byte. -/
def applyMask (mask payload : List UInt8) : List UInt8 :=
  payload.mapIdx fun i b => b ^^^ mask.getD (i % 4) 0

/-- The payload less its mask. -/
def payloadOf (x : List UInt8) : List UInt8 := applyMask (maskOf x) (x.drop (hdrLen x))

/-- The bytes of a frame. -/
def IsFrame (x : List UInt8) : Prop := GoodBits x ∧ x.length = hdrLen x + lenOf x

/-- The bytes of a frame that is not complete.  The bits of the first two bytes are looked at
when the third has come. -/
def Unfinished (x : List UInt8) : Prop :=
  x.length < 3 ∨ (GoodBits x ∧ (x.length < hdrLen x ∨ x.length < hdrLen x + lenOf x))

/-! ### More bytes -/

section Append

variable {x : List UInt8} (y : List UInt8)

theorem getD_append {i : ℕ} (h : i < x.length) : (x ++ y).getD i 0 = x.getD i 0 :=
  List.getD_append _ _ _ _ h

theorem goodBits_append (h : 2 ≤ x.length) : GoodBits (x ++ y) ↔ GoodBits x := by
  rw [GoodBits, GoodBits, getD_append y (by omega), getD_append y (by omega)]

theorem finOf_append (h : 2 ≤ x.length) : finOf (x ++ y) = finOf x := by
  rw [finOf, finOf, getD_append y (by omega)]

theorem opcodeOf_append (h : 2 ≤ x.length) : opcodeOf (x ++ y) = opcodeOf x := by
  rw [opcodeOf, opcodeOf, getD_append y (by omega)]

theorem shortLen_append (h : 2 ≤ x.length) : shortLen (x ++ y) = shortLen x := by
  rw [shortLen, shortLen, getD_append y (by omega)]

theorem extLen_append (h : 2 ≤ x.length) : extLen (x ++ y) = extLen x := by
  rw [extLen, extLen, shortLen_append y h]

theorem hdrLen_append (h : 2 ≤ x.length) : hdrLen (x ++ y) = hdrLen x := by
  rw [hdrLen, hdrLen, extLen_append y h]

theorem lenOf_append (h : 2 ≤ x.length) (h' : 2 + extLen x ≤ x.length) :
    lenOf (x ++ y) = lenOf x := by
  rw [lenOf, lenOf, extLen_append y h, shortLen_append y h, List.drop_append_of_le_length h,
    List.take_append_of_le_length (by rw [List.length_drop]; omega)]

theorem maskOf_append (h : hdrLen x ≤ x.length) : maskOf (x ++ y) = maskOf x := by
  unfold hdrLen at h
  rw [maskOf, maskOf, extLen_append y (by omega), List.drop_append_of_le_length (by omega),
    List.take_append_of_le_length (by rw [List.length_drop]; unfold MASK_LENGTH; omega)]

end Append

theorem extLen_cases (x : List UInt8) :
    (extLen x = 0 ∧ shortLen x ≠ 126 ∧ shortLen x ≠ 127) ∨ (extLen x = 2 ∧ shortLen x = 126) ∨
      (extLen x = 8 ∧ shortLen x = 127) := by
  unfold extLen
  by_cases h : shortLen x = 126
  · rw [if_pos h]
    exact .inr (.inl ⟨rfl, h⟩)
  by_cases h' : shortLen x = 127
  · rw [if_neg h, if_pos h']
    exact .inr (.inr ⟨rfl, h'⟩)
  · rw [if_neg h, if_neg h']
    exact .inl ⟨rfl, h, h'⟩

@[simp] theorem length_toBe (k x : ℕ) : (toBe k x).length = k := Words.length_le _ _

@[simp] theorem length_applyMask (mask payload : List UInt8) :
    (applyMask mask payload).length = payload.length := List.length_mapIdx

/-- The mask taken off a payload that it was put on. -/
theorem applyMask_applyMask (mask payload : List UInt8) :
    applyMask mask (applyMask mask payload) = payload := by
  apply List.ext_getElem (by simp)
  intro i h h'
  simp only [applyMask, List.getElem_mapIdx]
  rw [UInt8.xor_assoc, UInt8.xor_self, UInt8.xor_zero]

/-! ### One way to cut a stream -/

/-- A frame says its length, whether there is a mask (`k = 6`) or not (`k = 2`). -/
def Sized (k : ℕ) (x : List UInt8) : Prop := x.length = k + extLen x + lenOf x

theorem sized_append {k : ℕ} {x : List UInt8} (hk : 2 ≤ k) (hx : Sized k x) (r : List UInt8) :
    x.length = k + extLen (x ++ r) + lenOf (x ++ r) := by
  unfold Sized at hx
  rw [extLen_append r (by omega), lenOf_append r (by omega) (by omega)]
  exact hx

theorem sized_prefixFree {k : ℕ} (hk : 2 ≤ k) : PrefixFree (Sized k) := by
  intro x y r s hx hy h
  have heq : x.length = y.length := by
    rw [sized_append hk hx r, sized_append hk hy s, h]
  exact (List.append_inj h heq).1

theorem IsFrame.sized {x : List UInt8} (h : IsFrame x) : Sized 6 x := h.2

theorem IsFrame.length {x : List UInt8} (h : IsFrame x) : 6 ≤ x.length := by
  rw [h.2, hdrLen]
  omega

/-- What is not complete has no frame in front. -/
theorem Unfinished.wordFree {x : List UInt8} (hx : Unfinished x) : WordFree IsFrame x := by
  rintro y r hy rfl
  have h6 := hy.length
  have hlen := hy.2
  rcases hx with hx | ⟨-, hx⟩
  · rw [List.length_append] at hx
    omega
  · unfold hdrLen at hlen
    rw [hdrLen_append r (by omega), lenOf_append r (by omega) (by omega), List.length_append,
      hdrLen] at hx
    omega

/-- A stream is cut into frames in one way. -/
theorem frames_unique {xs ys : List (List UInt8)} {r s : List UInt8}
    (hxs : ∀ x ∈ xs, IsFrame x) (hys : ∀ y ∈ ys, IsFrame y) (hr : Unfinished r)
    (hs : Unfinished s) (h : xs.flatten ++ r = ys.flatten ++ s) : xs = ys ∧ r = s :=
  flatten_unique (fun _ _ _ _ hx hy => sized_prefixFree (by norm_num) hx.sized hy.sized) hxs hys
    hr.wordFree hs.wordFree h

end Libwebsock
