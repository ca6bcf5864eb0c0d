import Glouglou.Websock.Format

/-!
# libwebsock: sending

`libwebsock_send_fragment` puts a frame together in memory that it allocates for it, and the
functions of `api.c` call it.  What is sent is a frame without a mask (`IsPlain`), with the flags
and the data it was given, unless its size does not fit `unsigned int` (`send_fragment_eq`,
`send_fragment_frame`).  Such frames one after another are cut in one way (`sent_stream`).

* `libwebsock_send_fragment`, `libwebsock_send_text`, `libwebsock_close_with_reason`;
* `lenBytes`: the length of a payload as it is written.
-/

open CInt CString PrefixCode

namespace Libwebsock

def WS_FRAGMENT_FIN : ℕ := 0x80

/-- An access outside what is copied from or to. -/
inductive SendFault
  | data
  | frame
  deriving DecidableEq

/-- `libwebsock_send_fragment`, on `len` of the bytes `data`: the frame that is put out. -/
def libwebsock_send_fragment (data : List UInt8) (len flags : ℕ) :
    Except SendFault (List UInt8) :=
  let payload_offset := if len ≤ 125 then 2 else if len ≤ 0xffff then 4 else 10
  let payload_len_small := (if len ≤ 125 then len else if len ≤ 0xffff then 126 else 127) &&& 0x7f
  -- unsigned int
  let frame_size := u32 (payload_offset + len)
  if frame_size < payload_offset + len then .error .frame
  else if data.length < len then .error .data
  else
    let frame := (Mem.zeros.write 0 [UInt8.ofNat flags]).write 1 [UInt8.ofNat payload_len_small]
    let frame :=
      if payload_len_small = 126 then frame.write 2 (toBe 2 (len &&& 0xffff))
      else if payload_len_small = 127 then frame.write 2 (toBe 8 len)
      else frame
    .ok ((frame.write payload_offset (data.take len)).read 0 frame_size)

/-- `libwebsock_send_text`, on the bytes at `strdata` -/
def libwebsock_send_text (strdata : List UInt8) : Except SendFault (List UInt8) :=
  libwebsock_send_fragment strdata (view strdata).length (WS_FRAGMENT_FIN ||| WS_OPCODE_TEXT)

/-- `libwebsock_close_with_reason`; `buf` is what the 128 bytes on the stack hold before. -/
def libwebsock_close_with_reason (buf : Mem) (code : ℕ) (reason : Option (List UInt8)) :
    Except SendFault (List UInt8) :=
  let buf := buf.write 0 (toBe 2 code)
  let flags := WS_FRAGMENT_FIN ||| WS_OPCODE_CLOSE
  match reason with
  | none => libwebsock_send_fragment (buf.read 0 128) 2 flags
  | some reason =>
    -- the result of snprintf is added to an unsigned long long
    let r := snprintf buf 2 124 (view reason)
    libwebsock_send_fragment (r.2.read 0 128) (size_t (2 + r.1)) flags

/-- The length of a payload as it is written behind the first byte, with the bit of the mask. -/
def lenBytes (mask : UInt8) (len : ℕ) : List UInt8 :=
  if len ≤ 125 then [mask ||| UInt8.ofNat len]
  else if len ≤ 0xffff then (mask ||| 126) :: toBe 2 len
  else (mask ||| 127) :: toBe 8 len

/-- A frame without a mask. -/
def IsPlain (x : List UInt8) : Prop := (x.getD 1 0).toNat &&& 0x80 = 0 ∧ Sized 2 x

def plainOf (x : List UInt8) : List UInt8 := x.drop (2 + extLen x)

/-! ### The length on the wire -/

theorem be_toBe {k x : ℕ} (h : x < 256 ^ k) : be (toBe k x) = x := by
  rw [be, length_toBe, toBe, Words.ofLe_le_of_lt (Words.swap_lt k x), Words.swap_swap h]

section Length

variable {mask : UInt8} (hmask : mask = 0 ∨ mask = 0x80)
include hmask

theorem mask_or {n : ℕ} (hn : n < 128) :
    (mask ||| UInt8.ofNat n).toNat &&& 0x7f = n ∧
      (mask ||| UInt8.ofNat n).toNat &&& 0x80 = mask.toNat := by
  rcases hmask with rfl | rfl
  · revert n
    decide
  · revert n
    decide

/-- A length in the second byte. -/
theorem short_fields {len : ℕ} (hlen : len ≤ 125) (first : UInt8) (rest : List UInt8)
    {x : List UInt8} (hx : x = first :: (mask ||| UInt8.ofNat len) :: rest) :
    (x.getD 1 0).toNat &&& 0x80 = mask.toNat ∧ extLen x = 0 ∧ lenOf x = len := by
  obtain ⟨hlow, hhigh⟩ := mask_or hmask (show len < 128 by omega)
  have hsecond : x.getD 1 0 = mask ||| UInt8.ofNat len := by
    rw [hx]
    rfl
  have hshort : shortLen x = len := by
    rw [shortLen, hsecond]
    exact hlow
  have hext : extLen x = 0 := by
    rw [extLen, hshort, if_neg (by omega), if_neg (by omega)]
  refine ⟨?_, hext, ?_⟩
  · rw [hsecond]
    exact hhigh
  · rw [lenOf, if_pos hext, hshort]

/-- A length of `k` bytes behind the second byte. -/
theorem ext_fields {n k len : ℕ} (hn : (n = 126 ∧ k = 2) ∨ (n = 127 ∧ k = 8))
    (hlen : len < 256 ^ k) (first : UInt8) (rest : List UInt8) {x : List UInt8}
    (hx : x = first :: (mask ||| UInt8.ofNat n) :: (toBe k len ++ rest)) :
    (x.getD 1 0).toNat &&& 0x80 = mask.toNat ∧ extLen x = k ∧ lenOf x = len := by
  obtain ⟨hlow, hhigh⟩ := mask_or hmask (show n < 128 by omega)
  have hsecond : x.getD 1 0 = mask ||| UInt8.ofNat n := by
    rw [hx]
    rfl
  have hshort : shortLen x = n := by
    rw [shortLen, hsecond]
    exact hlow
  have hext : extLen x = k := by
    rw [extLen, hshort]
    rcases hn with ⟨rfl, rfl⟩ | ⟨rfl, rfl⟩ <;> rfl
  have hword : (x.drop 2).take k = toBe k len := by
    rw [hx]
    exact List.take_left' (length_toBe k len)
  refine ⟨?_, hext, ?_⟩
  · rw [hsecond]
    exact hhigh
  · rw [lenOf, hext, hword, if_neg (by omega), be_toBe hlen]

/-- The fields that are read off a frame with such a length. -/
theorem lenBytes_fields {len : ℕ} (hlen : len < 2 ^ 64) (first : UInt8) (rest : List UInt8)
    {x : List UInt8} (hx : x = first :: (lenBytes mask len ++ rest)) :
    (x.getD 1 0).toNat &&& 0x80 = mask.toNat ∧ 1 + extLen x = (lenBytes mask len).length ∧
      lenOf x = len := by
  unfold lenBytes at hx ⊢
  by_cases h125 : len ≤ 125
  · rw [if_pos h125] at hx ⊢
    obtain ⟨hsecond, hext, hlenOf⟩ := short_fields hmask h125 first rest hx
    exact ⟨hsecond, by rw [hext]; rfl, hlenOf⟩
  by_cases h16 : len ≤ 0xffff
  · rw [if_neg h125, if_pos h16] at hx ⊢
    obtain ⟨hsecond, hext, hlenOf⟩ := ext_fields hmask (.inl ⟨rfl, rfl⟩) (by omega) first rest hx
    exact ⟨hsecond, by rw [hext, List.length_cons, length_toBe], hlenOf⟩
  · rw [if_neg h125, if_neg h16] at hx ⊢
    obtain ⟨hsecond, hext, hlenOf⟩ := ext_fields hmask (.inr ⟨rfl, rfl⟩) (by omega) first rest hx
    exact ⟨hsecond, by rw [hext, List.length_cons, length_toBe], hlenOf⟩

end Length

/-- A frame without a mask, put together. -/
theorem isPlain_cons {len : ℕ} (hlen : len < 2 ^ 64) (first : UInt8) {payload : List UInt8}
    (hpayload : payload.length = len) :
    IsPlain (first :: (lenBytes 0 len ++ payload)) ∧
      plainOf (first :: (lenBytes 0 len ++ payload)) = payload := by
  obtain ⟨hsecond, hext, hlenOf⟩ := lenBytes_fields (.inl rfl) hlen first payload rfl
  refine ⟨⟨hsecond, ?_⟩, ?_⟩
  · rw [Sized, hlenOf, List.length_cons, List.length_append, ← hext, hpayload]
    omega
  · rw [plainOf, show 2 + extLen (first :: (lenBytes 0 len ++ payload)) =
      (lenBytes 0 len).length + 1 by omega, List.drop_succ_cons, List.drop_left]

/-! ### What is put out -/

/-- The bytes that are written one behind the other. -/
theorem put_together (a b : UInt8) (ext data : List UInt8) (off size : ℕ)
    (hoff : off = 2 + ext.length) (hsize : size = off + data.length) :
    ((((Mem.zeros.write 0 [a]).write 1 [b]).write 2 ext).write off data).read 0 size =
      a :: b :: (ext ++ data) := by
  have hb : (Mem.zeros.write 0 [a]).write 1 [b] = Mem.zeros.write 0 [a, b] :=
    Mem.zeros.write_append 0 [a] [b]
  have hext : (Mem.zeros.write 0 [a, b]).write 2 ext = Mem.zeros.write 0 ([a, b] ++ ext) :=
    Mem.zeros.write_append 0 [a, b] ext
  have hdata := Mem.zeros.write_append 0 ([a, b] ++ ext) data
  have hend : (0 : ℤ) + ([a, b] ++ ext).length = off := by
    rw [hoff, List.length_append, zero_add]
    rfl
  have hall := Mem.zeros.read_write_self 0 ([a, b] ++ ext ++ data)
  have hlen : ([a, b] ++ ext ++ data).length = size := by
    rw [hsize, hoff, List.length_append, List.length_append]
    rfl
  rw [hend] at hdata
  rw [hlen] at hall
  rw [hb, hext, hdata, hall]
  rfl

theorem u32_of_lt {n : ℕ} (h : n < 2 ^ 32) : u32 n = n := Nat.mod_eq_of_lt h

/-- The frame that is put together. -/
theorem send_fragment_eq {data : List UInt8} {len : ℕ} (hdata : len ≤ data.length)
    (hlen : len + 10 < 2 ^ 32) (flags : ℕ) :
    libwebsock_send_fragment data len flags =
      .ok (UInt8.ofNat flags :: (lenBytes 0 len ++ data.take len)) := by
  have htake : (data.take len).length = len := by
    rw [List.length_take]
    exact min_eq_left hdata
  unfold libwebsock_send_fragment lenBytes
  by_cases h125 : len ≤ 125
  · have hsmall : len &&& 0x7f = len := Nat.and_two_pow_sub_one_of_lt_two_pow (n := 7) (by omega)
    have hput := put_together (UInt8.ofNat flags) (UInt8.ofNat len) [] (data.take len) 2 (2 + len)
      rfl (by rw [htake])
    rw [Mem.write_nil] at hput
    simp only [if_pos h125, hsmall, u32_of_lt (show 2 + len < 2 ^ 32 by omega)]
    rw [if_neg (lt_irrefl _), if_neg (not_lt.2 hdata), if_neg (by omega), if_neg (by omega),
      UInt8.zero_or]
    exact congrArg Except.ok hput
  by_cases h16 : len ≤ 0xffff
  · have hmask : len &&& 0xffff = len := Nat.and_two_pow_sub_one_of_lt_two_pow (n := 16) (by omega)
    have hput := put_together (UInt8.ofNat flags) 126 (toBe 2 len) (data.take len) 4 (4 + len)
      (by rw [length_toBe]) (by rw [htake])
    simp only [if_neg h125, if_pos h16, hmask, u32_of_lt (show 4 + len < 2 ^ 32 by omega)]
    rw [if_neg (lt_irrefl _), if_neg (not_lt.2 hdata), if_pos (by decide)]
    exact congrArg Except.ok hput
  · have hput := put_together (UInt8.ofNat flags) 127 (toBe 8 len) (data.take len) 10 (10 + len)
      (by rw [length_toBe]) (by rw [htake])
    simp only [if_neg h125, if_neg h16, u32_of_lt (show 10 + len < 2 ^ 32 by omega)]
    rw [if_neg (lt_irrefl _), if_neg (not_lt.2 hdata), if_neg (by decide), if_pos (by decide)]
    exact congrArg Except.ok hput

/-- There is less data than is copied. -/
theorem send_fragment_data {data : List UInt8} {len : ℕ} (hdata : data.length < len)
    (hlen : len + 10 < 2 ^ 32) (flags : ℕ) :
    libwebsock_send_fragment data len flags = .error .data := by
  have hfit : ∀ off ≤ 10, ¬ u32 (off + len) < off + len := by
    intro off hoff
    rw [u32_of_lt (by omega)]
    exact lt_irrefl _
  unfold libwebsock_send_fragment
  rw [if_neg (hfit _ (by split_ifs <;> omega)), if_pos hdata]

/-- The frame does not fit the memory that is allocated for it. -/
theorem send_fragment_frame (data : List UInt8) {len : ℕ} (hlen : 2 ^ 32 ≤ len + 10) (flags : ℕ) :
    libwebsock_send_fragment data len flags = .error .frame := by
  unfold libwebsock_send_fragment u32
  simp only [if_neg (show ¬ len ≤ 125 by omega), if_neg (show ¬ len ≤ 0xffff by omega)]
  exact if_pos (by omega)

/-- The frame of a call on all its data. -/
theorem send_plain {data : List UInt8} (hlen : data.length + 10 < 2 ^ 32) (flags : ℕ) :
    ∃ x, libwebsock_send_fragment data data.length flags = .ok x ∧ IsPlain x ∧
      x.getD 0 0 = UInt8.ofNat flags ∧ plainOf x = data := by
  obtain ⟨hplain, hdata⟩ :=
    isPlain_cons (show data.length < 2 ^ 64 by omega) (UInt8.ofNat flags) rfl
  refine ⟨_, ?_, hplain, rfl, hdata⟩
  rw [send_fragment_eq le_rfl hlen, List.take_length]

theorem IsPlain.length {x : List UInt8} (h : IsPlain x) : 2 ≤ x.length := by
  rw [h.2]
  omega

theorem plain_prefixFree : PrefixFree IsPlain :=
  fun _ _ _ _ hx hy => sized_prefixFree le_rfl hx.2 hy.2

/-- A stream of frames without a mask is cut in one way. -/
theorem plain_unique {xs ys : List (List UInt8)} (hxs : ∀ x ∈ xs, IsPlain x)
    (hys : ∀ y ∈ ys, IsPlain y) (h : ys.flatten = xs.flatten) : ys = xs :=
  flatten_injective plain_prefixFree (fun hnil => absurd hnil.length (by simp)) hys hxs h

/-- The frames of calls of `libwebsock_send_fragment`, each with its flags and data. -/
def sendAll : List (ℕ × List UInt8) → Except SendFault (List (List UInt8))
  | [] => .ok []
  | (flags, data) :: calls =>
    match libwebsock_send_fragment data data.length flags with
    | .error e => .error e
    | .ok frame =>
      match sendAll calls with
      | .error e => .error e
      | .ok frames => .ok (frame :: frames)

/-- Over any calls: either the data of one does not fit a frame, and the memory that was allocated
for it is overrun; or the stream is cut into frames in one way only, and the flags and the data
of the calls are read off them. -/
theorem sent_stream (calls : List (ℕ × List UInt8)) :
    (sendAll calls = .error .frame ∧ ∃ c ∈ calls, 2 ^ 32 ≤ c.2.length + 10) ∨
      ((∀ c ∈ calls, c.2.length + 10 < 2 ^ 32) ∧ ∃ xs, sendAll calls = .ok xs ∧
        (∀ x ∈ xs, IsPlain x) ∧
        xs.map (fun x => (x.getD 0 0, plainOf x)) = calls.map (fun c => (UInt8.ofNat c.1, c.2)) ∧
        ∀ ys : List (List UInt8), (∀ y ∈ ys, IsPlain y) → ys.flatten = xs.flatten → ys = xs) := by
  induction calls with
  | nil =>
    have hnone : ∀ x ∈ ([] : List (List UInt8)), IsPlain x := by simp
    exact .inr ⟨by simp, [], rfl, hnone, rfl, fun ys hys h => plain_unique hnone hys h⟩
  | cons c calls ih =>
    obtain ⟨flags, data⟩ := c
    rw [sendAll]
    by_cases hlen : data.length + 10 < 2 ^ 32
    · obtain ⟨x, hx, hplain, hfirst, hdata⟩ := send_plain hlen flags
      rw [hx]
      rcases ih with ⟨herr, c, hc, hbig⟩ | ⟨hfit, xs, hxs, hall, hmap, -⟩
      · rw [herr]
        exact .inl ⟨rfl, c, List.mem_cons_of_mem _ hc, hbig⟩
      · rw [hxs]
        have hall' : ∀ y ∈ x :: xs, IsPlain y := List.forall_mem_cons.2 ⟨hplain, hall⟩
        refine .inr ⟨List.forall_mem_cons.2 ⟨hlen, hfit⟩, x :: xs, rfl, hall', ?_,
          fun ys hys h => plain_unique hall' hys h⟩
        rw [List.map_cons, List.map_cons, hmap, hfirst, hdata]
    · rw [send_fragment_frame data (not_lt.1 hlen) flags]
      exact .inl ⟨rfl, (flags, data), List.mem_cons_self, not_lt.1 hlen⟩

/-! ### Closing with a reason -/

/-- What is on the stack when the reason was put there. -/
theorem close_buffer (buf : Mem) (code : ℕ) (reason : List UInt8) {n : ℕ} (hn : n ≤ 123)
    (hreason : reason.length = n) :
    ((buf.write 0 (toBe 2 code)).write 2 (reason ++ [0])).read 0 128 =
      toBe 2 code ++ reason ++ [0] ++ buf.read (n + 3 : ℕ) (125 - n) := by
  have hcode := buf.write_append 0 (toBe 2 code) (reason ++ [0])
  rw [length_toBe, show (0 : ℤ) + (2 : ℕ) = 2 by norm_num] at hcode
  have hall := buf.read_write_self 0 (toBe 2 code ++ (reason ++ [0]))
  have hlen : (toBe 2 code ++ (reason ++ [0])).length = n + 3 := by
    rw [List.length_append, List.length_append, length_toBe, hreason, List.length_singleton]
    omega
  rw [hlen] at hall
  rw [hcode, show 128 = (n + 3) + (125 - n) by omega, Mem.read_add, hall,
    Mem.read_write_after _ _ (by rw [hlen, zero_add]), zero_add]
  simp only [List.append_assoc]

/-- The call with a reason, if `snprintf` returns two less than `n`. -/
theorem close_eq (buf : Mem) (code : ℕ) (s : List UInt8) {n : ℕ} (hn : n < 2 ^ 64)
    (hret : (snprintf (buf.write 0 (toBe 2 code)) 2 124 (view s)).1 = (n : ℤ) - 2) :
    libwebsock_close_with_reason buf code (some s) =
      libwebsock_send_fragment
        (((buf.write 0 (toBe 2 code)).write 2 ((view s).take 123 ++ [0])).read 0 128)
        n (WS_FRAGMENT_FIN ||| WS_OPCODE_CLOSE) := by
  have hsize : size_t (2 + (snprintf (buf.write 0 (toBe 2 code)) 2 124 (view s)).1) = n := by
    rw [hret, size_t]
    omega
  rw [← hsize]
  rfl

/-- The call with a reason whose length is an `int`. -/
theorem close_eq_of_int (buf : Mem) (code : ℕ) {s : List UInt8}
    (h : (view s).length ≤ INT_MAX) :
    libwebsock_close_with_reason buf code (some s) =
      libwebsock_send_fragment
        (((buf.write 0 (toBe 2 code)).write 2 ((view s).take 123 ++ [0])).read 0 128)
        (2 + (view s).length) (WS_FRAGMENT_FIN ||| WS_OPCODE_CLOSE) := by
  refine close_eq buf code s (by unfold INT_MAX at h; omega) ?_
  rw [snprintf, if_neg (not_lt.2 h)]
  omega

/-- A reason of at most 123 bytes is sent; up to three bytes more are sent as many bytes of the
stack, the end of the string first; with a longer reason the buffer is read past its end, and if
its length is no `int`, one byte of the code is sent. -/
theorem close_reason (buf : Mem) (code : ℕ) (s : List UInt8) :
    ((view s).length ≤ 123 → libwebsock_close_with_reason buf code (some s) =
      .ok (0x88 :: (lenBytes 0 (2 + (view s).length) ++ (toBe 2 code ++ view s)))) ∧
    (123 < (view s).length → (view s).length ≤ 126 →
      libwebsock_close_with_reason buf code (some s) =
        .ok (0x88 :: (lenBytes 0 (2 + (view s).length) ++ (toBe 2 code ++ (view s).take 123 ++
          [0] ++ buf.read 126 ((view s).length - 124))))) ∧
    (126 < (view s).length → (view s).length ≤ INT_MAX →
      libwebsock_close_with_reason buf code (some s) = .error .data) ∧
    (INT_MAX < (view s).length → libwebsock_close_with_reason buf code (some s) =
      .ok (0x88 :: (lenBytes 0 1 ++ (toBe 2 code).take 1))) := by
  have hlen : ∀ m : Mem, (m.read 0 128).length = 128 := fun m => m.length_read 0 128
  have hcut : 123 < (view s).length →
      (((buf.write 0 (toBe 2 code)).write 2 ((view s).take 123 ++ [0])).read 0 128) =
        toBe 2 code ++ (view s).take 123 ++ [0] ++ buf.read 126 2 := fun h =>
    close_buffer buf code ((view s).take 123) le_rfl (by rw [List.length_take]; omega)
  unfold INT_MAX
  refine ⟨fun h123 => ?_, fun h123 h126 => ?_, fun h126 hint => ?_, fun hint => ?_⟩
  · have hfront : List.take (2 + (view s).length)
        (((buf.write 0 (toBe 2 code)).write 2 (view s ++ [0])).read 0 128) =
          toBe 2 code ++ view s := by
      rw [close_buffer buf code (view s) h123 rfl, List.append_assoc, List.take_left']
      rw [List.length_append, length_toBe]
    rw [close_eq_of_int buf code (by unfold INT_MAX; omega), List.take_of_length_le h123,
      send_fragment_eq (by rw [hlen]; omega) (by omega), hfront]
    rfl
  · have hfront : (toBe 2 code ++ (view s).take 123 ++ [0]).length = 126 := by
      rw [List.length_append, List.length_append, length_toBe, List.length_take,
        min_eq_left h123.le]
      rfl
    have hstack : (buf.read 126 2).take ((view s).length - 124) =
        buf.read 126 ((view s).length - 124) := buf.take_read _ (by omega)
    rw [close_eq_of_int buf code (by unfold INT_MAX; omega),
      send_fragment_eq (by rw [hlen]; omega) (by omega), hcut h123,
      show 2 + (view s).length = 126 + ((view s).length - 124) by omega, ← hfront,
      List.take_length_add_append, ← hstack]
    rfl
  · rw [close_eq_of_int buf code (by unfold INT_MAX; omega)]
    exact send_fragment_data (by rw [hlen]; omega) (by omega) _
  · have hret : (snprintf (buf.write 0 (toBe 2 code)) 2 124 (view s)).1 = (1 : ℕ) - 2 :=
      if_pos hint
    rw [close_eq buf code s (by norm_num) hret, send_fragment_eq (by rw [hlen]; norm_num)
      (by norm_num), hcut (by omega), List.append_assoc, List.append_assoc,
      List.take_append_of_le_length (by rw [length_toBe]; norm_num)]
    rfl

/-- A reason of 127 bytes. -/
theorem close_reason_long :
    libwebsock_close_with_reason Mem.zeros 1000 (some (List.replicate 127 65)) = .error .data := by
  have hview : (view (List.replicate 127 65)).length = 127 := by
    rw [view_of_no_zero (by simp), List.length_replicate]
  exact (close_reason Mem.zeros 1000 (List.replicate 127 65)).2.2.1 (by omega)
    (by unfold INT_MAX; omega)

end Libwebsock
