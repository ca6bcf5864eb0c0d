import Glouglou.Lib.BlockHash
import Glouglou.Lib.CString
import Glouglou.Lib.Memory
import Glouglou.Lib.Radix

/-!
# libwebsock: SHA-1

The hash of `sha1.c`.  `SHA1Input` takes a message in parts, byte by byte, into a block of 64 bytes
that is compressed when it is full, and counts its bits in two words; `SHA1Result` pads what is
left.  `sha1` is the hash of a message as its standard defines it: the compression over the blocks
of the padded message.

Whatever calls are made of a context after `SHA1Reset`, its block is never overrun, and
`SHA1Result` succeeds with `sha1` of all that was put in, unless this was too long or more was put
in after the result had been asked for (`sha1_calls`).

* `SHA1Reset`, `SHA1Input`, `SHA1Result`, `SHA1ProcessMessageBlock`, `SHA1PadMessage`.
-/

open CString Radix

namespace Libwebsock

/-- Five words: a digest, or the word buffers. -/
structure Digest where
  A : UInt32
  B : UInt32
  C : UInt32
  D : UInt32
  E : UInt32
  deriving DecidableEq

/-- `SHA1Context` -/
structure SHA1Context where
  Message_Digest : Digest
  Length_Low : UInt32
  Length_High : UInt32
  Message_Block : Mem
  Message_Block_Index : ℕ
  Computed : Bool
  Corrupted : Bool

namespace Sha1

/-- `SHA1CircularShift` -/
def SHA1CircularShift (bits word : UInt32) : UInt32 :=
  ((word <<< bits) &&& 0xFFFFFFFF) ||| (word >>> (32 - bits))

/-- The digest of a context that is reset. -/
def initial : Digest := ⟨0x67452301, 0xEFCDAB89, 0x98BADCFE, 0x10325476, 0xC3D2E1F0⟩

/-- `SHA1Reset` -/
def SHA1Reset (context : SHA1Context) : SHA1Context :=
  { context with
    Length_Low := 0
    Length_High := 0
    Message_Block_Index := 0
    Message_Digest := initial
    Computed := false
    Corrupted := false }

/-- The word `t` of the block. -/
def blockWord (block : List UInt8) (t : ℕ) : UInt32 :=
  (block.getD (t * 4) 0).toUInt32 <<< 24 ||| (block.getD (t * 4 + 1) 0).toUInt32 <<< 16 |||
    (block.getD (t * 4 + 2) 0).toUInt32 <<< 8 ||| (block.getD (t * 4 + 3) 0).toUInt32

/-- `n` more words of the sequence `W`. -/
def extend : ℕ → List UInt32 → List UInt32
  | 0, W => W
  | n + 1, W =>
    let t := W.length
    extend n (W ++ [SHA1CircularShift 1 (W.getD (t - 3) 0 ^^^ W.getD (t - 8) 0 ^^^
      W.getD (t - 14) 0 ^^^ W.getD (t - 16) 0)])

/-- A turn of a loop over the words, with the function and the constant of that loop. -/
def turn (f : UInt32 → UInt32 → UInt32 → UInt32) (K : UInt32) (r : Digest) (w : UInt32) : Digest :=
  let temp := (SHA1CircularShift 5 r.A + f r.B r.C r.D + r.E + w + K) &&& 0xFFFFFFFF
  ⟨temp, r.A, SHA1CircularShift 30 r.B, r.C, r.D⟩

/-- The digest after a block. -/
def process (digest : Digest) (block : List UInt8) : Digest :=
  let W := extend 64 ((List.range 16).map (blockWord block))
  let r := (W.take 20).foldl (turn (fun B C D => (B &&& C) ||| (~~~B &&& D)) 0x5A827999) digest
  let r := ((W.drop 20).take 20).foldl (turn (fun B C D => B ^^^ C ^^^ D) 0x6ED9EBA1) r
  let r := ((W.drop 40).take 20).foldl
    (turn (fun B C D => (B &&& C) ||| (B &&& D) ||| (C &&& D)) 0x8F1BBCDC) r
  let r := ((W.drop 60).take 20).foldl (turn (fun B C D => B ^^^ C ^^^ D) 0xCA62C1D6) r
  ⟨(digest.A + r.A) &&& 0xFFFFFFFF, (digest.B + r.B) &&& 0xFFFFFFFF,
    (digest.C + r.C) &&& 0xFFFFFFFF, (digest.D + r.D) &&& 0xFFFFFFFF,
    (digest.E + r.E) &&& 0xFFFFFFFF⟩

/-- `SHA1ProcessMessageBlock` -/
def SHA1ProcessMessageBlock (context : SHA1Context) : SHA1Context :=
  { context with
    Message_Digest := process context.Message_Digest (context.Message_Block.read 0 64)
    Message_Block_Index := 0 }

/-- The context with other bytes in its block. -/
def setBlock (context : SHA1Context) (block : Mem) (index : ℕ) : SHA1Context :=
  { context with
    Message_Block := block
    Message_Block_Index := index }

/-- A byte is stored in the block, `none` behind its end. -/
def store (context : SHA1Context) (b : UInt8) : Option SHA1Context :=
  let i := context.Message_Block_Index
  if i < 64 then some (setBlock context (context.Message_Block.write i [b]) (i + 1)) else none

/-- Eight bits are counted. -/
def count (context : SHA1Context) : SHA1Context :=
  let low := (context.Length_Low + 8) &&& 0xFFFFFFFF
  let high := (context.Length_High + 1) &&& 0xFFFFFFFF
  if low = 0 then
    { context with
      Length_Low := low
      Length_High := high
      -- Message is too long
      Corrupted := context.Corrupted || high = 0 }
  else { context with Length_Low := low }

/-- A turn of the loop of `SHA1Input`. -/
def inputByte (context : SHA1Context) (b : UInt8) : Option SHA1Context :=
  match store context b with
  | none => none
  | some context =>
    let context := count context
    if context.Message_Block_Index = 64 then some (SHA1ProcessMessageBlock context)
    else some context

/-- The loop of `SHA1Input`. -/
def inputLoop (context : SHA1Context) : List UInt8 → Option SHA1Context
  | [] => some context
  | b :: message_array =>
    if context.Corrupted then some context
    else
      match inputByte context b with
      | none => none
      | some context => inputLoop context message_array

/-- `SHA1Input` -/
def SHA1Input (context : SHA1Context) (message_array : List UInt8) : Option SHA1Context :=
  if message_array = [] then some context
  else if context.Computed ∨ context.Corrupted then some { context with Corrupted := true }
  else inputLoop context message_array

/-- `n` turns of the loops that store zeros. -/
def storeZeros : ℕ → SHA1Context → Option SHA1Context
  | 0, context => some context
  | n + 1, context =>
    match store context 0 with
    | none => none
    | some context => storeZeros n context

/-- Zeros are stored up to byte `n`. -/
def zerosTo (n : ℕ) (context : SHA1Context) : Option SHA1Context :=
  storeZeros (n - context.Message_Block_Index) context

/-- A byte of a word. -/
def byteOf (word shift : UInt32) : UInt8 := ((word >>> shift) &&& 0xFF).toUInt8

/-- The message length as the last 8 octets. -/
def lengthOctets (context : SHA1Context) : List UInt8 :=
  [byteOf context.Length_High 24, byteOf context.Length_High 16, byteOf context.Length_High 8,
    byteOf context.Length_High 0, byteOf context.Length_Low 24, byteOf context.Length_Low 16,
    byteOf context.Length_Low 8, byteOf context.Length_Low 0]

/-- The first part of the padding. -/
def padZeros (context : SHA1Context) : Option SHA1Context :=
  if 55 < context.Message_Block_Index then
    match store context 0x80 with
    | none => none
    | some context =>
      match zerosTo 64 context with
      | none => none
      | some context => zerosTo 56 (SHA1ProcessMessageBlock context)
  else
    match store context 0x80 with
    | none => none
    | some context => zerosTo 56 context

/-- `SHA1PadMessage` -/
def SHA1PadMessage (context : SHA1Context) : Option SHA1Context :=
  match padZeros context with
  | none => none
  | some context =>
    some (SHA1ProcessMessageBlock { context with
      Message_Block := context.Message_Block.write 56 (lengthOctets context) })

/-- `SHA1Result`: its result and the context -/
def SHA1Result (context : SHA1Context) : Option (ℤ × SHA1Context) :=
  if context.Corrupted then some (0, context)
  else if context.Computed then some (1, context)
  else
    match SHA1PadMessage context with
    | none => none
    | some context => some (1, { context with Computed := true })

/-! ### The hash of a message -/

/-- The length in bits, in eight bytes. -/
def lengthBytes (len : ℕ) : List UInt8 := (digits 256 8 (8 * len)).map UInt8.ofNat

theorem length_lengthBytes (len : ℕ) : (lengthBytes len).length = 8 := by
  rw [lengthBytes, List.length_map, length_digits]

/-- SHA-1 -/
def sha1 (m : List UInt8) : Digest :=
  BlockHash.digest process 0x80 0 8 lengthBytes 64 initial m

example : sha1 (ascii "abc") =
    ⟨0xA9993E36, 0x4706816A, 0xBA3E2571, 0x7850C26C, 0x9CD0D89D⟩ := by decide +kernel

-- nothing below looks into the compression
attribute [irreducible] process

@[simp] theorem digest_setBlock (context : SHA1Context) (block : Mem) (index : ℕ) :
    (setBlock context block index).Message_Digest = context.Message_Digest := rfl

@[simp] theorem block_setBlock (context : SHA1Context) (block : Mem) (index : ℕ) :
    (setBlock context block index).Message_Block = block := rfl

@[simp] theorem corrupted_setBlock (context : SHA1Context) (block : Mem) (index : ℕ) :
    (setBlock context block index).Corrupted = context.Corrupted := rfl

-- after `rw`, so that the digests are not compared
@[simp] theorem digest_process (context : SHA1Context) :
    (SHA1ProcessMessageBlock context).Message_Digest =
      process context.Message_Digest (context.Message_Block.read 0 64) := by
  rw [SHA1ProcessMessageBlock]

@[simp] theorem corrupted_process (context : SHA1Context) :
    (SHA1ProcessMessageBlock context).Corrupted = context.Corrupted := by
  rw [SHA1ProcessMessageBlock]

@[simp] theorem octets_setBlock (context : SHA1Context) (block : Mem) (index : ℕ) :
    lengthOctets (setBlock context block index) = lengthOctets context := rfl

@[simp] theorem octets_process (context : SHA1Context) :
    lengthOctets (SHA1ProcessMessageBlock context) = lengthOctets context := by
  rw [SHA1ProcessMessageBlock, lengthOctets, lengthOctets]

/-! ### The words of the length -/

theorem byteOf_eq (w : UInt32) {k : ℕ} (hk : k < 32) :
    byteOf w (UInt32.ofNat k) = UInt8.ofNat (w.toNat / 2 ^ k) := by
  have hshift : (UInt32.ofNat k).toNat % 32 = k := by
    rw [UInt32.toNat_ofNat', Nat.mod_eq_of_lt (show k < 2 ^ 32 by omega), Nat.mod_eq_of_lt hk]
  apply UInt8.toNat_inj.1
  rw [byteOf, UInt32.toNat_toUInt8, UInt32.toNat_and, UInt32.toNat_shiftRight, hshift,
    Nat.shiftRight_eq_div_pow, UInt8.toNat_ofNat']
  exact (congrArg (· % 2 ^ 8) (Nat.and_two_pow_sub_one_eq_mod _ 8)).trans (Nat.mod_mod _ _)

/-- The length as it is stored. -/
theorem lengthOctets_eq {context : SHA1Context} {len : ℕ} (hlen : len < 2 ^ 61)
    (hlow : context.Length_Low = UInt32.ofNat (8 * len))
    (hhigh : context.Length_High = UInt32.ofNat (8 * len / 2 ^ 32)) :
    lengthOctets context = lengthBytes len := by
  have hl : context.Length_Low.toNat = 8 * len % 2 ^ 32 := by
    rw [hlow, UInt32.toNat_ofNat']
  have hh : context.Length_High.toNat = 8 * len / 2 ^ 32 := by
    rw [hhigh, UInt32.toNat_ofNat']
    omega
  have hbyte : ∀ (w : UInt32) (k v : ℕ), k < 32 → w.toNat / 2 ^ k % 2 ^ 8 = v →
      byteOf w (UInt32.ofNat k) = UInt8.ofNat v := by
    intro w k v hk hv
    rw [byteOf_eq w hk, ← hv, UInt8.ofNat_mod_size]
  simp only [lengthBytes, digits, List.nil_append, List.cons_append, List.map_cons, List.map_nil]
  simp only [lengthOctets, List.cons.injEq, and_true]
  refine ⟨hbyte _ 24 _ ?_ ?_, hbyte _ 16 _ ?_ ?_, hbyte _ 8 _ ?_ ?_, hbyte _ 0 _ ?_ ?_,
    hbyte _ 24 _ ?_ ?_, hbyte _ 16 _ ?_ ?_, hbyte _ 8 _ ?_ ?_, hbyte _ 0 _ ?_ ?_⟩
  all_goals omega

/-! ### What is kept of a message -/

/-- The digest of the full blocks, and the bytes of the block that is not full. -/
def absorbed (m : List UInt8) : Digest × List UInt8 := BlockHash.absorb process 64 initial m

/-- The block holds these bytes. -/
def Holds (r : List UInt8) (context : SHA1Context) : Prop :=
  context.Message_Block_Index = r.length ∧ context.Message_Block.read 0 r.length = r

/-- A context that has taken the bytes `m`. -/
structure Taken (m : List UInt8) (context : SHA1Context) : Prop where
  short : m.length < 2 ^ 61
  digest : context.Message_Digest = (absorbed m).1
  block : Holds (absorbed m).2 context
  low : context.Length_Low = UInt32.ofNat (8 * m.length)
  high : context.Length_High = UInt32.ofNat (8 * m.length / 2 ^ 32)
  computed : context.Computed = false
  corrupted : context.Corrupted = false

theorem taken_reset (context : SHA1Context) : Taken [] (SHA1Reset context) :=
  ⟨by norm_num, rfl, ⟨rfl, rfl⟩, rfl, rfl, rfl, rfl⟩

theorem length_absorbed (m : List UInt8) : (absorbed m).2.length = m.length % 64 :=
  BlockHash.length_absorb process (by norm_num) initial m

theorem absorbed_append (m : List UInt8) (b : UInt8) :
    absorbed (m ++ [b]) =
      if (absorbed m).2.length + 1 = 64 then (process (absorbed m).1 ((absorbed m).2 ++ [b]), [])
      else ((absorbed m).1, (absorbed m).2 ++ [b]) := by
  rw [absorbed, BlockHash.absorb_append]
  rfl

theorem holds_set {r : List UInt8} (context : SHA1Context) {block : Mem}
    (h : block.read 0 r.length = r) : Holds r (setBlock context block r.length) := ⟨rfl, h⟩

theorem store_holds {r : List UInt8} {context : SHA1Context} (h : Holds r context)
    (hr : r.length < 64) (b : UInt8) :
    ∃ block, store context b = some (setBlock context block (r.length + 1)) ∧
      block.read 0 (r.length + 1) = r ++ [b] := by
  obtain ⟨hindex, hread⟩ := h
  refine ⟨context.Message_Block.write r.length [b], ?_, ?_⟩
  · rw [store, hindex]
    exact if_pos hr
  · have happend := Mem.read_write_append context.Message_Block 0 r.length [b]
    rwa [zero_add, hread] at happend

/-- The bits of one more byte. -/
theorem count_eq (context : SHA1Context) {len : ℕ} (hlen : len < 2 ^ 61)
    (hlow : context.Length_Low = UInt32.ofNat (8 * len))
    (hhigh : context.Length_High = UInt32.ofNat (8 * len / 2 ^ 32)) :
    count context = { context with
      Length_Low := UInt32.ofNat (8 * (len + 1))
      Length_High := UInt32.ofNat (8 * (len + 1) / 2 ^ 32)
      Corrupted := context.Corrupted || len + 1 = 2 ^ 61 } := by
  have hnext : context.Length_Low + 8 = UInt32.ofNat (8 * (len + 1)) := by
    rw [hlow, Nat.mul_succ, UInt32.ofNat_add]
    rfl
  have hzero : ∀ v : ℕ, UInt32.ofNat v = 0 ↔ v % 2 ^ 32 = 0 := by
    intro v
    rw [← UInt32.toNat_inj, UInt32.toNat_ofNat']
    rfl
  have hmask : (0xFFFFFFFF : UInt32) = -1 := rfl
  rw [count, hmask, UInt32.and_neg_one, UInt32.and_neg_one, hnext]
  by_cases hwrap : 8 * (len + 1) % 2 ^ 32 = 0
  · have hcarry : context.Length_High + 1 = UInt32.ofNat (8 * (len + 1) / 2 ^ 32) := by
      rw [hhigh, show 8 * (len + 1) / 2 ^ 32 = 8 * len / 2 ^ 32 + 1 by omega, UInt32.ofNat_add]
      rfl
    have hlong : UInt32.ofNat (8 * (len + 1) / 2 ^ 32) = 0 ↔ len + 1 = 2 ^ 61 := by
      rw [hzero]
      omega
    simp only [hcarry, (hzero _).2 hwrap, if_true, hlong]
  · have hsame : context.Length_High = UInt32.ofNat (8 * (len + 1) / 2 ^ 32) := by
      rw [hhigh, show 8 * (len + 1) / 2 ^ 32 = 8 * len / 2 ^ 32 by omega]
    have hshort : ¬ len + 1 = 2 ^ 61 := by omega
    simp only [mt (hzero _).1 hwrap, if_false, hshort, decide_false, Bool.or_false, ← hsame]

/-- The context after one more byte, if its block is that of the longer message. -/
theorem Taken.snoc {m : List UInt8} {context context' : SHA1Context} (h : Taken m context)
    (b : UInt8) (hdigest : context'.Message_Digest = (absorbed (m ++ [b])).1)
    (hblock : Holds (absorbed (m ++ [b])).2 context')
    (hlow : context'.Length_Low = UInt32.ofNat (8 * (m.length + 1)))
    (hhigh : context'.Length_High = UInt32.ofNat (8 * (m.length + 1) / 2 ^ 32))
    (hcomputed : context'.Computed = context.Computed)
    (hcorrupted : context'.Corrupted = (context.Corrupted || m.length + 1 = 2 ^ 61)) :
    if m.length + 1 < 2 ^ 61 then Taken (m ++ [b]) context' else context'.Corrupted = true := by
  have hlen : (m ++ [b]).length = m.length + 1 := List.length_append
  rw [h.corrupted, Bool.false_or] at hcorrupted
  split_ifs with hshort
  · refine ⟨hlen ▸ hshort, hdigest, hblock, hlen ▸ hlow, hlen ▸ hhigh, ?_, ?_⟩
    · rw [hcomputed, h.computed]
    · rw [hcorrupted]
      exact decide_eq_false hshort.ne
  · have := h.short
    rw [hcorrupted]
    exact decide_eq_true (by omega)

/-- A byte is taken, or it is the one that makes the message too long. -/
theorem inputByte_taken {m : List UInt8} {context : SHA1Context} (h : Taken m context) (b : UInt8) :
    ∃ context', inputByte context b = some context' ∧
      if m.length + 1 < 2 ^ 61 then Taken (m ++ [b]) context' else context'.Corrupted = true := by
  have hlt : (absorbed m).2.length < 64 := by
    rw [length_absorbed]
    exact Nat.mod_lt _ (by norm_num)
  obtain ⟨block, hstore, hread⟩ := store_holds h.block hlt b
  rw [inputByte, hstore]
  simp only [count_eq (setBlock context block ((absorbed m).2.length + 1)) h.short h.low h.high]
  by_cases hfull : (absorbed m).2.length + 1 = 64
  · refine ⟨_, if_pos hfull, ?_⟩
    dsimp only [SHA1ProcessMessageBlock, setBlock]
    refine h.snoc b ?_ ?_ rfl rfl rfl rfl
    · rw [absorbed_append, if_pos hfull, ← hread, hfull, ← h.digest]
    · rw [absorbed_append, if_pos hfull]
      exact ⟨rfl, rfl⟩
  · refine ⟨_, if_neg hfull, ?_⟩
    dsimp only [setBlock]
    refine h.snoc b ?_ ?_ rfl rfl rfl rfl
    · rw [absorbed_append, if_neg hfull]
      exact h.digest
    · have hr : ((absorbed m).2 ++ [b]).length = (absorbed m).2.length + 1 := List.length_append
      rw [absorbed_append, if_neg hfull]
      exact ⟨hr.symm, hr ▸ hread⟩

/-- More bytes are taken, or they make the message too long. -/
theorem inputLoop_taken {m : List UInt8} {context : SHA1Context} (h : Taken m context)
    (l : List UInt8) :
    ∃ context', inputLoop context l = some context' ∧
      if m.length + l.length < 2 ^ 61 then Taken (m ++ l) context'
      else context'.Corrupted = true := by
  induction l generalizing m context with
  | nil =>
    refine ⟨context, rfl, ?_⟩
    rw [List.length_nil, Nat.add_zero, if_pos h.short, List.append_nil]
    exact h
  | cons b l ih =>
    obtain ⟨context₁, hbyte, hafter⟩ := inputByte_taken h b
    rw [inputLoop, if_neg (by rw [h.corrupted]; decide), hbyte]
    by_cases hone : m.length + 1 < 2 ^ 61
    · rw [if_pos hone] at hafter
      have hrest := ih hafter
      rwa [List.length_append, List.length_singleton, List.append_assoc, Nat.add_right_comm,
        Nat.add_assoc] at hrest
    · rw [if_neg hone] at hafter
      refine ⟨context₁, ?_, ?_⟩
      · cases l with
        | nil => rfl
        | cons c l => exact if_pos hafter
      · rw [List.length_cons, if_neg (by omega)]
        exact hafter

theorem input_taken {m : List UInt8} {context : SHA1Context} (h : Taken m context)
    (l : List UInt8) :
    ∃ context', SHA1Input context l = some context' ∧
      if m.length + l.length < 2 ^ 61 then Taken (m ++ l) context'
      else context'.Corrupted = true := by
  rw [SHA1Input]
  by_cases hl : l = []
  · subst hl
    rw [if_pos rfl]
    exact inputLoop_taken h []
  · rw [if_neg hl, if_neg (by rw [h.computed, h.corrupted]; decide)]
    exact inputLoop_taken h l

/-! ### The padding -/

theorem storeZeros_holds {r : List UInt8} {context : SHA1Context} (h : Holds r context) (n : ℕ)
    (hn : r.length + n ≤ 64) :
    ∃ block, storeZeros n context = some (setBlock context block (r.length + n)) ∧
      block.read 0 (r.length + n) = r ++ List.replicate n 0 := by
  induction n generalizing r context with
  | zero =>
    refine ⟨context.Message_Block, ?_, ?_⟩
    · rw [storeZeros, Nat.add_zero, ← h.1]
      rfl
    · rw [Nat.add_zero, List.replicate_zero, List.append_nil]
      exact h.2
  | succ n ih =>
    obtain ⟨block, hstore, hread⟩ := store_holds h (by omega) 0
    have hlen : (r ++ [0]).length = r.length + 1 := List.length_append
    have hholds := holds_set context (hlen.symm ▸ hread)
    obtain ⟨block', hzeros, hread'⟩ := ih hholds (by omega)
    rw [hlen, Nat.add_assoc, Nat.add_comm 1] at hzeros hread'
    refine ⟨block', ?_, ?_⟩
    · rw [storeZeros, hstore]
      exact hzeros
    · rw [hread', List.append_assoc]
      rfl

theorem zerosTo_holds {r : List UInt8} {context : SHA1Context} (h : Holds r context) {n : ℕ}
    (hn : r.length ≤ n) (hn' : n ≤ 64) :
    ∃ block, zerosTo n context = some (setBlock context block n) ∧
      block.read 0 n = r ++ List.replicate (n - r.length) 0 := by
  obtain ⟨block, hzeros, hread⟩ := storeZeros_holds h (n - r.length) (by omega)
  rw [Nat.add_sub_cancel' hn] at hzeros hread
  exact ⟨block, by rw [zerosTo, h.1, hzeros], hread⟩

/-- The mark and zeros, in the block that there is. -/
theorem padZeros_one {r : List UInt8} {context : SHA1Context} (h : Holds r context)
    (hr : r.length + 1 + 8 ≤ 64) :
    ∃ block, padZeros context = some (setBlock context block 56) ∧
      block.read 0 56 = r ++ 0x80 :: List.replicate (64 - 8 - (r.length + 1)) 0 := by
  obtain ⟨block, hstore, hread⟩ := store_holds h (by omega) 0x80
  have hlen : (r ++ [0x80]).length = r.length + 1 := List.length_append
  have hholds := holds_set context (hlen.symm ▸ hread)
  obtain ⟨block', hzeros, hread'⟩ := zerosTo_holds (n := 56) hholds (by omega) (by norm_num)
  refine ⟨block', ?_, ?_⟩
  · rw [padZeros, h.1, if_neg (by omega), hstore, ← hlen]
    exact hzeros
  · rw [hread', hlen, List.append_assoc]
    rfl

/-- The mark and zeros, in two blocks. -/
theorem padZeros_two {r : List UInt8} {context : SHA1Context} (h : Holds r context)
    (hr : ¬ r.length + 1 + 8 ≤ 64) (hlt : r.length < 64) :
    ∃ full block, padZeros context =
        some (setBlock (SHA1ProcessMessageBlock (setBlock context full 64)) block 56) ∧
      full.read 0 64 = r ++ 0x80 :: List.replicate (64 - (r.length + 1)) 0 ∧
      block.read 0 56 = List.replicate (64 - 8) 0 := by
  obtain ⟨block, hstore, hread⟩ := store_holds h hlt 0x80
  have hlen : (r ++ [0x80]).length = r.length + 1 := List.length_append
  have hholds := holds_set context (hlen.symm ▸ hread)
  obtain ⟨full, hzeros, hfull⟩ := zerosTo_holds hholds (n := 64) (by omega) le_rfl
  rw [hlen, List.append_assoc] at hfull
  have hempty : Holds [] (SHA1ProcessMessageBlock (setBlock context full 64)) := ⟨rfl, rfl⟩
  obtain ⟨block', hzeros', hread'⟩ := zerosTo_holds hempty (n := 56) (Nat.zero_le _) (by norm_num)
  refine ⟨full, block', ?_, hfull, hread'⟩
  rw [padZeros, h.1, if_pos (by omega), hstore]
  simp only [← hlen, hzeros]
  exact hzeros'

/-- The length is stored behind the padding. -/
theorem padMessage_eq {context context' : SHA1Context} {block : Mem}
    (hpad : padZeros context = some (setBlock context' block 56)) :
    SHA1PadMessage context = some (SHA1ProcessMessageBlock
      (setBlock context' (block.write 56 (lengthOctets context')) 56)) := by
  rw [SHA1PadMessage, hpad]
  rfl

/-- The result of a context that has taken the bytes `m`. -/
theorem padMessage_taken {m : List UInt8} {context : SHA1Context} (h : Taken m context) :
    ∃ context', SHA1PadMessage context = some context' ∧ context'.Message_Digest = sha1 m ∧
      context'.Corrupted = false := by
  have hlt : (absorbed m).2.length < 64 := by
    rw [length_absorbed]
    exact Nat.mod_lt _ (by norm_num)
  have hclose : BlockHash.close process 0x80 0 8 lengthBytes 64 (absorbed m) m.length =
      sha1 m := by
    rw [sha1, absorbed]
    exact BlockHash.close_absorb process 0x80 0 (by norm_num) (by norm_num) length_lengthBytes
      initial m
  -- the length stands behind the 56 bytes that were filled
  have hall : ∀ block : Mem, (block.write 56 (lengthOctets context)).read 0 64 =
      block.read 0 56 ++ lengthBytes m.length := by
    intro block
    have happend := Mem.read_write_append block 0 56 (lengthBytes m.length)
    rw [length_lengthBytes, zero_add] at happend
    rw [lengthOctets_eq h.short h.low h.high]
    exact happend
  by_cases hfit : (absorbed m).2.length + 1 + 8 ≤ 64
  · obtain ⟨block, hpad, hread⟩ := padZeros_one h.block hfit
    refine ⟨_, padMessage_eq hpad, ?_, ?_⟩
    · rw [digest_process, digest_setBlock, block_setBlock, hall, hread, ← hclose, BlockHash.close,
        if_pos hfit, ← h.digest, List.append_assoc, List.cons_append]
    · rw [corrupted_process, corrupted_setBlock, h.corrupted]
  · obtain ⟨full, block, hpad, hfull, hread⟩ := padZeros_two h.block hfit hlt
    refine ⟨_, padMessage_eq hpad, ?_, ?_⟩
    · rw [octets_process, octets_setBlock, digest_process, digest_setBlock, digest_process,
        digest_setBlock, block_setBlock, block_setBlock, hall, hread, hfull, ← hclose,
        BlockHash.close, if_neg hfit, ← h.digest]
    · rw [corrupted_process, corrupted_setBlock, corrupted_process, corrupted_setBlock, h.corrupted]

/-! ### Calls -/

/-- A call made of a context. -/
inductive Call
  | SHA1Reset
  | SHA1Input (message_array : List UInt8)
  | SHA1Result

/-- The context after calls, and the digests that are there after each `SHA1Result` that
succeeds. -/
def calls (context : SHA1Context) : List Call → Option (SHA1Context × List (Option Digest))
  | [] => some (context, [])
  | .SHA1Reset :: cs => calls (SHA1Reset context) cs
  | .SHA1Input message_array :: cs =>
    match SHA1Input context message_array with
    | none => none
    | some context => calls context cs
  | .SHA1Result :: cs =>
    match SHA1Result context with
    | none => none
    | some (result, context) =>
      (calls context cs).map fun r =>
        (r.1, (if result = 1 then some context.Message_Digest else none) :: r.2)

/-- What a context stands for: the message so far, a message whose hash was asked for, or an
error. -/
inductive Hash
  | taking (m : List UInt8)
  | computed (m : List UInt8)
  | corrupted

/-- More bytes. -/
def Hash.input : Hash → List UInt8 → Hash
  | .taking m, l => if m.length + l.length < 2 ^ 61 then .taking (m ++ l) else .corrupted
  | .computed m, l => if l = [] then .computed m else .corrupted
  | .corrupted, _ => .corrupted

/-- The hash that is asked for. -/
def Hash.result : Hash → Hash × Option Digest
  | .taking m => (.computed m, some (sha1 m))
  | .computed m => (.computed m, some (sha1 m))
  | .corrupted => (.corrupted, none)

/-- The hashes of the messages that calls say. -/
def Hash.results (a : Hash) : List Call → List (Option Digest)
  | [] => []
  | .SHA1Reset :: cs => (Hash.taking []).results cs
  | .SHA1Input message_array :: cs => (a.input message_array).results cs
  | .SHA1Result :: cs => a.result.2 :: a.result.1.results cs

/-- A context and what it stands for. -/
def Stands : Hash → SHA1Context → Prop
  | .taking m, context => Taken m context
  | .computed m, context =>
    context.Corrupted = false ∧ context.Computed = true ∧ context.Message_Digest = sha1 m
  | .corrupted, context => context.Corrupted = true

theorem input_stands {a : Hash} {context : SHA1Context} (h : Stands a context) (l : List UInt8) :
    ∃ context', SHA1Input context l = some context' ∧ Stands (a.input l) context' := by
  cases a with
  | taking m =>
    obtain ⟨context', hinput, hafter⟩ := input_taken h l
    refine ⟨context', hinput, ?_⟩
    rw [Hash.input]
    split_ifs at hafter ⊢ <;> exact hafter
  | computed m =>
    rw [SHA1Input, Hash.input]
    by_cases hl : l = []
    · rw [if_pos hl, if_pos hl]
      exact ⟨context, rfl, h⟩
    · rw [if_neg hl, if_neg hl, if_pos (.inl h.2.1)]
      exact ⟨_, rfl, rfl⟩
  | corrupted =>
    rw [SHA1Input]
    split_ifs with hl hno
    · exact ⟨context, rfl, h⟩
    · exact ⟨_, rfl, rfl⟩
    · exact absurd (.inr h) hno

theorem result_stands {a : Hash} {context : SHA1Context} (h : Stands a context) :
    ∃ result context', SHA1Result context = some (result, context') ∧ Stands a.result.1 context' ∧
      (if result = 1 then some context'.Message_Digest else none) = a.result.2 := by
  rw [SHA1Result]
  cases a with
  | taking m =>
    obtain ⟨context', hpad, hdigest, hok⟩ := padMessage_taken h
    rw [if_neg (by rw [h.corrupted]; decide), if_neg (by rw [h.computed]; decide), hpad]
    exact ⟨1, _, rfl, ⟨hok, rfl, hdigest⟩, congrArg some hdigest⟩
  | computed m =>
    rw [if_neg (by rw [h.1]; decide), if_pos h.2.1]
    exact ⟨1, context, rfl, h, congrArg some h.2.2⟩
  | corrupted =>
    rw [if_pos (show context.Corrupted = true from h)]
    exact ⟨0, context, rfl, h, rfl⟩

theorem calls_stands {a : Hash} {context : SHA1Context} (h : Stands a context) (cs : List Call) :
    (calls context cs).map Prod.snd = some (a.results cs) := by
  induction cs generalizing a context with
  | nil => rfl
  | cons c cs ih =>
    cases c with
    | SHA1Reset => exact ih (a := .taking []) (taken_reset context)
    | SHA1Input message_array =>
      obtain ⟨context', hinput, hafter⟩ := input_stands h message_array
      rw [calls, hinput]
      exact ih hafter
    | SHA1Result =>
      obtain ⟨result, context', hresult, hafter, hdigest⟩ := result_stands h
      obtain ⟨r, hr, hrest⟩ := Option.map_eq_some_iff.1 (ih hafter)
      rw [calls, hresult]
      simp only [hr, Option.map_some, hdigest, hrest]
      rfl

/-- Whatever calls are made of a context that was reset, no byte is stored behind its block, and
each `SHA1Result` gives the hash of what was put in since the last reset, unless this is too long
or was added to after an earlier `SHA1Result`. -/
theorem sha1_calls (context : SHA1Context) (cs : List Call) :
    (calls context (.SHA1Reset :: cs)).map Prod.snd = some ((Hash.taking []).results cs) :=
  calls_stands (a := .taking []) (taken_reset context) cs

end Sha1

end Libwebsock
