import Glouglou.Libglouglou.Packet.Basic

/-!
# Which datagrams are decoded safely

The decoder is not told how long the datagram is and believes its length fields.  `InRange` says
of a datagram what the decoder does not check; `safe_iff_inRange` shows, arm by arm, that it is
just what is needed.
-/

open CInt CString Words

namespace Ggpkt

/-- The decoder kept to the `n` bytes received and to its arrays, and if it returned a body the
length field of the body is within its array. -/
structure Decoded.Safe (d : Decoded) (n : ℕ) : Prop where
  reads : ∀ f ∈ d.reads, Mem.InBounds n f.off f.size
  copies : ∀ c ∈ d.copies, c.Fits
  auth : d.ret = true → type.get d.body = MsgType.AUTH.code →
    auth_probe_password_len.get d.body ≤ GLOUGLOU_PASS_SIZE_MAX
  notice : d.ret = true → type.get d.body = MsgType.NOTICE.code →
    notice_len.get d.body ≤ GGPKT_ARG_MAX

/-- The datagram is decoded safely, whatever the buffer holds behind it and whatever the static
body holds. -/
def SafeOn (g : ℕ) (data : List UInt8) : Prop :=
  ∀ heap body : Mem, (ggpkt_mod_0_internal_decode g (heap.write 0 data) body).Safe data.length

/-- A byte of the datagram. -/
def byteAt (data : List UInt8) (i : ℕ) : ℕ := (data.getD i 0).toNat

/-- The length field of a notice, in network order. -/
def noticeLen (data : List UInt8) : ℕ := byteAt data 6 + 256 * byteAt data 5

/-- The datagram is long enough for its type and its length fields are within their arrays; the
byte 25 of an `AUTH` ends up in the length field too. -/
def InRange (g : ℕ) (data : List UInt8) : Prop :=
  5 ≤ data.length ∧
    match MsgType.ofCode (byteAt data 4) with
    | some .HELLO | some .HELLO_RES | some .PING | some .PING_RES => 9 ≤ data.length
    | some .AUTH => 32 ≤ data.length ∧ byteAt data 7 ≤ 16 ∧ byteAt data 25 ≤ 16
    | some .AUTH_RES => 9 + g ≤ data.length
    | some .NOTICE => 7 + noticeLen data ≤ data.length ∧ noticeLen data ≤ 60
    | none => True

/-! ### The received bytes -/

theorem received_apply (heap : Mem) {data : List UInt8} {i : ℕ} (h : i < data.length) :
    (heap.write 0 data) i = data.getD i 0 := by
  have hw := heap.write_inside 0 data h
  rw [zero_add] at hw
  rw [hw, List.getD_eq_getElem?_getD, List.getElem?_eq_getElem h, Option.getD_some]

/-- A field of one byte. -/
theorem get_received (heap : Mem) {data : List UInt8} {i : ℕ} (h : i < data.length) :
    Field.get ⟨i, 1⟩ (heap.write 0 data) = byteAt data i := by
  rw [Field.get_byte rfl, received_apply heap h, byteAt]

theorem noticeLen_received (heap : Mem) {data : List UInt8} (h : 7 ≤ data.length) :
    ntohs (notice_len.get (heap.write 0 data)) = noticeLen data := by
  have h5 := received_apply heap (show 5 < data.length by omega)
  have h6 := received_apply heap (show 6 < data.length by omega)
  have hread : (heap.write 0 data).read 5 2 = [data.getD 5 0, data.getD 6 0] := by
    rw [← h5, ← h6]
    rfl
  have hle := le_ofLe [data.getD 5 0, data.getD 6 0]
  rw [List.length_cons, List.length_cons, List.length_nil] at hle
  rw [ntohs, notice_len, Field.get, hread, swap, hle]
  simp only [List.reverse_cons, List.reverse_nil, List.nil_append, List.cons_append, ofLe,
    noticeLen, byteAt, Nat.mul_zero, Nat.add_zero]

/-! ### The type -/

theorem ofCode_eq_some {t : ℕ} {m : MsgType} (h : MsgType.ofCode t = some m) : t = m.code := by
  unfold MsgType.ofCode at h
  split at h <;> cases h <;> rfl

theorem code_injective {m m' : MsgType} (h : m.code = m'.code) : m = m' := by
  have := congrArg MsgType.ofCode h
  simpa using this

/-- The type of a body is not changed by what is stored after it. -/
theorem type_write {m : Mem} {off : ℤ} (h : 5 ≤ off) (bs : List UInt8) :
    type.get (m.write off bs) = type.get m :=
  Field.get_write_before h m bs

theorem type_set {f : Field} (h : 5 ≤ f.off) (m : Mem) (x : ℕ) :
    type.get (f.set m x) = type.get m :=
  type_write h _

/-- The type the decoder stores first. -/
theorem type_stored (buf body : Mem) : type.get (type.set body (type.get buf)) = type.get buf := by
  rw [Field.get_set, Nat.mod_eq_of_lt]
  have h := ofLe_lt (buf.read type.off type.size)
  rwa [Mem.length_read] at h

/-- The type of a decoded packet is that of the datagram. -/
theorem type_decode (g : ℕ) (buf body : Mem) :
    type.get (ggpkt_mod_0_internal_decode g buf body).body = type.get buf := by
  have hword : ∀ f : Field, 5 ≤ f.off →
      type.get (decodeWord f buf (type.set body (type.get buf))).body = type.get buf := by
    intro f hf
    rw [decodeWord, type_set hf, type_stored]
  simp only [ggpkt_mod_0_internal_decode]
  split
  · exact hword _ (by decide)
  · exact hword _ (by decide)
  · simp only [decodeAuth]
    rw [type_set (by decide), type_set (by decide), type_write (by decide), type_set (by decide),
      type_set (by decide), type_stored]
  · exact hword _ (by simp [auth_res_random_ggd])
  · simp only [decodeNotice]
    rw [type_write (by decide), type_set (by decide), type_stored]
  · exact hword _ (by decide)
  · exact hword _ (by decide)
  · exact type_stored buf body

/-- The type is read from every datagram. -/
theorem type_mem_reads (g : ℕ) (buf body : Mem) :
    type ∈ (ggpkt_mod_0_internal_decode g buf body).reads := by
  simp only [ggpkt_mod_0_internal_decode]
  split <;> simp [decodeWord, decodeAuth, decodeNotice]

/-! ### The arms -/

/-- A word loaded from network order is its bytes in the other order. -/
theorem set_ntohl_get {f f' : Field} (h : f.size = 4) (h' : f'.size = 4) (m m' : Mem) :
    f.set m (ntohl (f'.get m')) = m.write f.off (m'.read f'.off 4).reverse := by
  have hswap := Field.set_swap_get f f' (h.trans h'.symm) m m'
  rwa [h'] at hswap

/-- An arm with one word needs the word. -/
theorem decodeWord_safe {f : Field} (h : 5 ≤ f.off) {buf body : Mem} {m : MsgType}
    (ht : type.get (decodeWord f buf body).body = m.code) (ha : m ≠ .AUTH) (hn : m ≠ .NOTICE)
    {n : ℕ} (h5 : 5 ≤ n) : (decodeWord f buf body).Safe n ↔ f.off + f.size ≤ n := by
  constructor
  · intro hs
    exact (hs.reads f (by simp [decodeWord])).2
  · intro hf
    refine ⟨?_, by simp [decodeWord], fun _ h => ?_, fun _ h => ?_⟩
    · intro f' hf'
      simp only [decodeWord, List.mem_cons, List.not_mem_nil, or_false] at hf'
      rcases hf' with rfl | rfl
      · exact ⟨by decide, by simp [type]; omega⟩
      · exact ⟨by omega, hf⟩
    · exact absurd (code_injective (ht.symm.trans h)) ha
    · exact absurd (code_injective (ht.symm.trans h)) hn

/-- The length field of a decoded `AUTH` was overwritten by the probe's random. -/
theorem auth_len_decoded (buf body : Mem) :
    auth_probe_password_len.get (decodeAuth buf body).body = (buf 25).toNat := by
  simp only [decodeAuth]
  rw [Field.get_set_before (by decide), set_ntohl_get rfl rfl, Field.get_byte rfl]
  rfl

theorem decodeAuth_safe {data : List UInt8} (heap body : Mem)
    (ht : type.get (decodeAuth (heap.write 0 data) body).body = MsgType.AUTH.code) :
    (decodeAuth (heap.write 0 data) body).Safe data.length ↔
      32 ≤ data.length ∧ byteAt data 7 ≤ 16 ∧ byteAt data 25 ≤ 16 := by
  have hcopy : 8 ≤ data.length → auth_probe_password_len.get (heap.write 0 data) = byteAt data 7 :=
    fun h => get_received heap (i := 7) h
  have hlen := auth_len_decoded (heap.write 0 data) body
  constructor
  · intro hs
    -- the last field of the arm is loaded whatever the length field says
    have h32 : 32 ≤ data.length := by
      have := (hs.reads auth_random_ggd (by simp [decodeAuth])).2
      simp only [auth_random_ggd] at this
      omega
    have h25 := received_apply heap (show 25 < data.length by omega)
    refine ⟨h32, ?_, ?_⟩
    · have hfit := hs.copies _ (List.mem_singleton_self _)
      rw [hcopy (by omega)] at hfit
      exact hfit
    · have hauth := hs.auth rfl ht
      rw [hlen] at hauth
      rw [byteAt, ← h25]
      exact hauth
  · rintro ⟨h32, h7, h25⟩
    have h25' := received_apply heap (show 25 < data.length by omega)
    refine ⟨?_, ?_, fun _ _ => ?_, fun _ h => ?_⟩
    · intro f hf
      simp only [decodeAuth, hcopy (by omega), List.mem_cons, List.not_mem_nil, or_false] at hf
      rcases hf with rfl | rfl | rfl | rfl | rfl | rfl <;> constructor <;>
        simp only [type, auth_probe_id, auth_probe_password_len, auth_probe_password,
          auth_random_probe, auth_random_ggd] <;> omega
    · intro c hc
      simp only [decodeAuth, hcopy (by omega), List.mem_singleton] at hc
      rw [hc]
      exact h7
    · rw [hlen, show (25 : ℤ) = (25 : ℕ) from rfl, h25']
      exact h25
    · exact absurd (code_injective (ht.symm.trans h)) (by decide)

theorem decodeNotice_safe {data : List UInt8} (heap body : Mem)
    (ht : type.get (decodeNotice (heap.write 0 data) body).body = MsgType.NOTICE.code)
    (h5 : 5 ≤ data.length) :
    (decodeNotice (heap.write 0 data) body).Safe data.length ↔
      7 + noticeLen data ≤ data.length ∧ noticeLen data ≤ 60 := by
  have hcopy : 7 ≤ data.length → ntohs (notice_len.get (heap.write 0 data)) = noticeLen data :=
    fun h => noticeLen_received heap h
  constructor
  · intro hs
    have h7 : 7 ≤ data.length := by
      have := (hs.reads notice_len (by simp [decodeNotice])).2
      simp only [notice_len] at this
      omega
    have hread := (hs.reads ⟨notice_msg, ntohs (notice_len.get (heap.write 0 data))⟩
      (by simp [decodeNotice])).2
    have hfit := hs.copies _ (List.mem_singleton_self _)
    rw [hcopy h7] at hread hfit
    simp only [notice_msg] at hread
    exact ⟨by omega, hfit⟩
  · rintro ⟨hn, h60⟩
    have h7 : 7 ≤ data.length := by omega
    refine ⟨?_, ?_, fun _ h => ?_, fun _ _ => ?_⟩
    · intro f hf
      simp only [decodeNotice, hcopy h7, List.mem_cons, List.not_mem_nil, or_false] at hf
      rcases hf with rfl | rfl | rfl <;> constructor <;>
        simp only [type, notice_len, notice_msg] <;> omega
    · intro c hc
      simp only [decodeNotice, hcopy h7, List.mem_singleton] at hc
      rw [hc]
      exact h60
    · exact absurd (code_injective (ht.symm.trans h)) (by decide)
    · simp only [decodeNotice]
      rw [Field.get_write_before (by decide), Field.get_set, hcopy h7]
      exact (Nat.mod_le _ _).trans h60

/-- What the decoder needs of a datagram, whatever is behind it and in the static body. -/
theorem safe_iff_inRange (g : ℕ) (data : List UInt8) (heap body : Mem) :
    (ggpkt_mod_0_internal_decode g (heap.write 0 data) body).Safe data.length ↔
      InRange g data := by
  unfold InRange
  by_cases h5 : 5 ≤ data.length
  · have hget : type.get (heap.write 0 data) = byteAt data 4 := get_received heap (i := 4) h5
    have ht := type_decode g (heap.write 0 data) body
    rw [hget] at ht
    simp only [ggpkt_mod_0_internal_decode, hget] at ht ⊢
    rcases hm : MsgType.ofCode (byteAt data 4) with _ | m
    · simp only [and_true, h5, iff_true]
      refine ⟨?_, by simp, by simp, by simp⟩
      intro f hf
      rw [List.mem_singleton.1 hf]
      exact ⟨by decide, by simp only [type]; omega⟩
    · replace ht := ht.trans (ofCode_eq_some hm)
      simp only [hm] at ht
      cases m with
      | AUTH =>
        simp only [h5, true_and]
        exact decodeAuth_safe heap _ ht
      | NOTICE =>
        simp only [h5, true_and]
        exact decodeNotice_safe heap _ ht h5
      | AUTH_RES =>
        simp only [h5, true_and]
        rw [decodeWord_safe (by simp [auth_res_random_ggd]) ht (by decide) (by decide) h5]
        simp only [auth_res_random_ggd]
        omega
      | _ =>
        simp only [h5, true_and]
        rw [decodeWord_safe (by decide) ht (by decide) (by decide) h5]
        simp only [hello_random_probe, hello_res_random_ggd, ping_random, ping_res_random_res]
        omega
  · constructor
    · intro hs
      have := (hs.reads type (type_mem_reads g _ _)).2
      simp only [type] at this
      omega
    · intro h
      exact absurd h.1 h5

/-- **Safety of the decoder.**  A datagram is decoded safely exactly if it is long enough for
its type and its length fields are in range. -/
theorem decode_safe_iff (g : ℕ) (data : List UInt8) : SafeOn g data ↔ InRange g data := by
  constructor
  · intro h
    exact (safe_iff_inRange g data .zeros .zeros).1 (h _ _)
  · intro h heap body
    exact (safe_iff_inRange g data heap body).2 h

/-- An `AUTH` that announces 255 bytes of password. -/
def longAuth : List UInt8 := [0, 1, 0, 0, 2, 0, 0, 255] ++ List.replicate 292 65

/-- Its password is copied past the array. -/
theorem decode_unsafe_auth :
    ¬ SafeOn 1 longAuth ∧
      ∃ c ∈ (ggpkt_mod_0_internal_decode 1 (Mem.zeros.write 0 longAuth) .zeros).copies,
        ¬ c.Fits := by
  constructor
  · intro h
    have hrange := (safe_iff_inRange 1 longAuth .zeros .zeros).1 (h _ _)
    exact absurd hrange.2.2.1 (by decide)
  · exact ⟨⟨16, 255⟩, by decide, by decide⟩

end Ggpkt
