import Glouglou.Libglouglou.Packet.Safety

/-!
# Decoding what was constructed

A message is a constructor with its arguments.  `Msg.Recovered` says that a decoded body carries
them, `Msg.Intact` of which messages this is so: those with one random in network order
survive; the arms whose two sides disagree on byte order, on a field or on its length lose their
arguments but for a few values.
-/

open CInt CString Words

namespace Ggpkt

/-- A call of one of the seven constructors; `rand` is what `rand()` returned. -/
inductive Msg
  | hello (rand : UInt32)
  | hello_res (rand : UInt32)
  | auth (probe_id : UInt16) (pass : CStr) (random_probe random_ggd : UInt32)
  | auth_res (status : ℤ)
  | ping (rand : UInt32)
  | ping_res (random_res : UInt32)
  | notice (msg : CStr)

def Msg.construct (heap : Mem) : Msg → Ret
  | hello rand => ggpkt_mod_0_internal_hello heap rand.toNat
  | hello_res rand => ggpkt_mod_0_internal_hello_res heap rand.toNat
  | auth probe_id pass random_probe random_ggd =>
    ggpkt_mod_0_internal_hello_auth heap probe_id.toNat pass random_probe.toNat random_ggd.toNat
  | auth_res status => ggpkt_mod_0_internal_auth_res heap status
  | ping rand => ggpkt_mod_0_internal_ping heap rand.toNat
  | ping_res random_res => ggpkt_mod_0_internal_ping_res heap random_res.toNat
  | notice msg => ggpkt_mod_0_internal_notice heap msg

def Msg.type : Msg → MsgType
  | hello _ => .HELLO
  | hello_res _ => .HELLO_RES
  | auth _ _ _ _ => .AUTH
  | auth_res _ => .AUTH_RES
  | ping _ => .PING
  | ping_res _ => .PING_RES
  | notice _ => .NOTICE

/-- The fields of a decoded body are the arguments of the constructor. -/
def Msg.Fields (body : Mem) : Msg → Prop
  | hello rand => hello_random_probe.get body = rand.toNat
  | hello_res rand => hello_res_random_ggd.get body = rand.toNat
  | auth probe_id pass random_probe random_ggd =>
    auth_probe_id.get body = probe_id.toNat ∧
    auth_probe_password_len.get body = pass.1.length ∧
    (body.read auth_probe_password GLOUGLOU_PASS_SIZE_MAX).take
      (auth_probe_password_len.get body) = pass.1 ∧
    auth_random_probe.get body = random_probe.toNat ∧
    auth_random_ggd.get body = random_ggd.toNat
  | auth_res status => auth_res_status.get body = status
  | ping rand => ping_random.get body = rand.toNat
  | ping_res random_res => ping_res_random_res.get body = random_res.toNat
  | notice msg =>
    notice_len.get body = msg.1.length ∧
    (body.read notice_msg GGPKT_ARG_MAX).take (notice_len.get body) = msg.1

/-- The decoder returned a body of the message's type with its arguments. -/
def Msg.Recovered (m : Msg) (d : Decoded) : Prop :=
  d.ret = true ∧ Ggpkt.type.get d.body = m.type.code ∧ m.Fields d.body

/-- The messages that survive, given what the static body held before.  The random of an `AUTH`
stands over its length field, and what the decoder copies by that length is where its random is
looked for. -/
def Msg.Intact (g : ℕ) (body : Mem) : Msg → Prop
  | hello _ | hello_res _ => True
  | auth probe_id pass random_probe _ =>
    probe_id = 0 ∧ pass.1 = [] ∧
    le 4 random_probe.toNat = (List.range 4).map fun j : ℕ =>
      if 16 + j < random_probe.toNat / 256 % 256 then 0 else body (24 + j)
  | auth_res status => (if g = 0 then 0 else (body 5).toNat : ℤ) = status
  | ping random | ping_res random => swap 4 random.toNat = random.toNat
  | notice msg => msg.1 = []

/-! ### The fresh body -/

@[simp] theorem type_NEWPKT (heap : Mem) (t : MsgType) : type.get (NEWPKT heap t) = t.code := by
  unfold NEWPKT ggpkt_header_encode
  rw [Field.get_set_after (by decide), Field.get_set_after (by decide), Field.get_set]
  cases t <;> rfl

/-- The data of a fresh body is zero. -/
theorem NEWPKT_zero (heap : Mem) (t : MsgType) {i : ℤ} (h : 5 ≤ i) (h' : i < 68) :
    NEWPKT heap t i = 0 := by
  obtain ⟨k, rfl⟩ : ∃ k : ℕ, i = k := ⟨i.toNat, by omega⟩
  unfold NEWPKT ggpkt_header_encode
  rw [Field.set_of_ge (by simp only [header_module_version]; omega),
    Field.set_of_ge (by simp only [header_module_id]; omega),
    Field.set_of_ge (by simp only [type]; omega)]
  have hk : k < (List.replicate sizeof (0 : UInt8)).length := by
    rw [List.length_replicate, sizeof]
    omega
  have hw := heap.write_inside 0 (List.replicate sizeof 0) hk
  rw [zero_add] at hw
  rw [hw, List.getElem_replicate]

/-! ### Constructed bodies -/

/-- The constructed body of an `AUTH`. -/
theorem auth_built {heap : Mem} {probe_id : UInt16} {pass : CStr} {rp rg : UInt32}
    {built : Built} (h : ((Msg.auth probe_id pass rp rg).construct heap).built = some built) :
    ∃ m : Mem, (∀ i, 8 ≤ i → i < 68 → m i = 0) ∧ type.get m = MsgType.AUTH.code ∧
      built.body = auth_random_ggd.set (hello_random_probe.set
        (m.write 8 ((pass.1 ++ [0]).take (size_t (int32 pass.1.length + 1)))) (htonl rp.toNat))
        (htonl rg.toNat) := by
  simp only [Msg.construct, ggpkt_mod_0_internal_hello_auth] at h
  split_ifs at h
  · simp [Ret.built] at h
  · simp only [Ret.built, Option.some.injEq] at h
    refine ⟨auth_probe_password_len.set (auth_probe_id.set (NEWPKT heap .AUTH)
      (htons probe_id.toNat)) (uint8 (int32 pass.1.length)), fun i hi hi' => ?_, ?_, ?_⟩
    · rw [Field.set_of_ge (by simp only [auth_probe_password_len]; omega),
        Field.set_of_ge (by simp only [auth_probe_id]; omega)]
      exact NEWPKT_zero heap _ (by omega) hi'
    · rw [type_set (by decide), type_set (by decide), type_NEWPKT]
    · rw [← h]
      rfl

/-- The constructed body of a notice. -/
theorem notice_built {heap : Mem} {msg : CStr} {built : Built}
    (h : ((Msg.notice msg).construct heap).built = some built) :
    built.body = (notice_len.set (NEWPKT heap .NOTICE) (uint16 (int32 msg.1.length))).write
      notice_msg ((msg.1 ++ [0]).take (size_t (int32 msg.1.length + 1))) := by
  simp only [Msg.construct, ggpkt_mod_0_internal_notice] at h
  split_ifs at h
  · simp [Ret.built] at h
  · simp only [Ret.built, Option.some.injEq] at h
    rw [← h]
    rfl

/-- The constructors set the type. -/
theorem type_construct {m : Msg} {heap : Mem} {built : Built}
    (h : (m.construct heap).built = some built) : type.get built.body = m.type.code := by
  cases m with
  | auth probe_id pass random_probe random_ggd =>
    obtain ⟨m, -, hm, hb⟩ := auth_built h
    rw [hb, type_set (by decide), type_set (by decide), type_write (by decide), hm]
    rfl
  | notice msg =>
    rw [notice_built h, type_write (by decide), type_set (by decide), type_NEWPKT]
    rfl
  | _ =>
    cases h
    rw [type_set (by decide), type_NEWPKT]
    rfl

/-! ### The arms with one word -/

/-- A word of the packet comes out with its bytes in the other order. -/
theorem word_decoded {f : Field} (hf : f.size = 4) (m body : Mem) {x : ℕ} (hx : x < 256 ^ 4) :
    f.get (decodeWord f (f.set m x) body).body = swap 4 x := by
  rw [decodeWord, Field.get_set, Field.get_set, hf, Nat.mod_eq_of_lt hx, ntohl,
    Nat.mod_eq_of_lt (swap_lt 4 x)]

theorem uint32_toNat (r : UInt32) : (uint32 r.toNat).toNat = r.toNat := by
  have h : r.toNat < 2 ^ 32 := r.toNat_lt
  unfold uint32
  omega

/-- A random in network order comes back. -/
theorem htonl_decoded {f : Field} (hf : f.size = 4) (m body : Mem) (r : UInt32) :
    f.get (decodeWord f (f.set m (htonl r.toNat)) body).body = r.toNat := by
  have h : r.toNat < 2 ^ 32 := r.toNat_lt
  rw [htonl, uint32_toNat, word_decoded hf _ _ (swap_lt 4 _), swap_swap (by omega)]

/-- A random in host order comes back swapped. -/
theorem host_decoded {f : Field} (hf : f.size = 4) (m body : Mem) (r : UInt32) :
    f.get (decodeWord f (f.set m (uint32 r.toNat).toNat) body).body = swap 4 r.toNat := by
  have h : r.toNat < 2 ^ 32 := r.toNat_lt
  rw [uint32_toNat, word_decoded hf _ _ (by omega)]

/-! ### `AUTH_RES` -/

/-- The status is lost: the decoder does not load it. -/
theorem status_decoded (g : ℕ) (heap body : Mem) (status : ℤ) :
    auth_res_status.get (decodeWord (auth_res_random_ggd g)
      (auth_res_status.set (NEWPKT heap .AUTH_RES) (uint8 status))
      (type.set body MsgType.AUTH_RES.code)).body = if g = 0 then 0 else (body 5).toNat := by
  rw [decodeWord]
  split_ifs with hg
  · -- the word of the decoder is the status and three bytes of zero
    subst hg
    have h8 : (auth_res_status.set (NEWPKT heap .AUTH_RES) (uint8 status)) 8 = 0 := by
      rw [Field.set_of_ge (by decide)]
      exact NEWPKT_zero heap _ (by norm_num) (by norm_num)
    rw [set_ntohl_get rfl rfl, Field.get_byte rfl]
    exact congrArg UInt8.toNat h8
  · rw [Field.get_set_before (by simp [auth_res_status, auth_res_random_ggd]; omega),
      Field.get_byte rfl, Field.set_of_ge (by decide)]
    rfl

/-! ### `AUTH` -/

/-- The length field holds a byte of the probe's random. -/
theorem auth_sent_len (m : Mem) (rp rg : UInt32) :
    auth_probe_password_len.get
      (auth_random_ggd.set (hello_random_probe.set m (htonl rp.toNat)) (htonl rg.toNat)) =
      rp.toNat / 256 % 256 := by
  rw [Field.get_set_before (by decide), Field.get_byte rfl, htonl, uint32_toNat, Field.set]
  have hle : le hello_random_probe.size (swap 4 rp.toNat) = (le 4 rp.toNat).reverse :=
    le_swap 4 _
  rw [hle]
  exact UInt8.toNat_ofNat'

/-- Where the decoder looks for the probe's random, a packet with a password that fits its
array has zeros. -/
theorem auth_sent_random {m : Mem} (hm : ∀ i, 8 ≤ i → i < 68 → m i = 0) {pass : List UInt8}
    (hp : pass.length ≤ 16) (rp rg : ℕ) :
    (auth_random_ggd.set (hello_random_probe.set
      (m.write 8 ((pass ++ [0]).take (size_t (int32 pass.length + 1)))) rp) rg).read 24 4 =
      [0, 0, 0, 0] := by
  have hsize : size_t (int32 pass.length + 1) = pass.length + 1 := by
    rw [int32_of_mem (by omega) (by unfold INT_MAX; omega), size_t]
    omega
  have hbyte : ∀ j : ℕ, j < 4 → (m.write 8 (pass ++ [0])) (24 + j) = 0 := by
    intro j hj
    by_cases hin : 16 + j < (pass ++ [0]).length
    · -- the terminator of a password of 16 bytes
      have hj0 : j = 0 := by simp at hin; omega
      have hlen : pass.length = 16 := by simp at hin; omega
      subst hj0
      have hw := m.write_inside 8 (pass ++ [0]) hin
      rw [show (8 : ℤ) + ((16 + 0 : ℕ) : ℤ) = 24 + ((0 : ℕ) : ℤ) by norm_num] at hw
      rw [hw]
      simp [← hlen]
    · rw [Mem.write_of_ge _ _ (by omega)]
      exact hm _ (by omega) (by omega)
  rw [Field.set, Field.set, Mem.read_write_before _ _ (by decide),
    Mem.read_write_after _ _ (by simp [hello_random_probe]), hsize,
    List.take_of_length_le (by simp)]
  have h0 := hbyte 0 (by norm_num)
  have h1 := hbyte 1 (by norm_num)
  have h2 := hbyte 2 (by norm_num)
  have h3 := hbyte 3 (by norm_num)
  simp only [Mem.read, List.range_succ, List.range_zero, List.nil_append, List.map_cons,
    List.map_nil, h0, h1, h2, h3, List.cons_append]

/-- The id, the length and the first byte of the password of a decoded `AUTH`. -/
theorem auth_head_decoded (buf body : Mem) :
    (decodeAuth buf body).body.read 5 4 = (buf.read 24 4).reverse := by
  simp only [decodeAuth]
  rw [Field.set, Mem.read_write_before _ _ (by decide), set_ntohl_get rfl rfl]
  have h := Mem.read_write_self
    ((auth_probe_password_len.set (auth_probe_id.set body (ntohs (auth_probe_id.get buf)))
      (auth_probe_password_len.get buf)).write auth_probe_password
        (buf.read auth_probe_password (auth_probe_password_len.get buf)))
    hello_random_probe.off (buf.read auth_random_probe.off 4).reverse
  rw [List.length_reverse, Mem.length_read] at h
  exact h

/-- The random of a decoded `AUTH` is what the copy of the password left there. -/
theorem auth_tail_decoded (buf body : Mem) :
    (decodeAuth buf body).body.read 24 4 = (List.range 4).map fun j : ℕ =>
      if 16 + j < auth_probe_password_len.get buf then buf (24 + j) else body (24 + j) := by
  simp only [decodeAuth]
  rw [Field.set, Mem.read_write_before _ _ (by decide), Field.set,
    Mem.read_write_after _ _ (by simp [hello_random_probe]), Mem.read]
  refine List.map_congr_left fun j hj => ?_
  generalize auth_probe_password_len.get buf = len
  split_ifs with hin
  · have hw := Mem.write_inside (auth_probe_password_len.set
      (auth_probe_id.set body (ntohs (auth_probe_id.get buf))) len) 8 (buf.read 8 len)
      (i := 16 + j) (by rwa [Mem.length_read])
    have hoff : (8 : ℤ) + ((16 + j : ℕ) : ℤ) = 24 + j := by push_cast; ring
    rw [hoff] at hw
    rw [show auth_probe_password = 8 from rfl, hw]
    simp only [Mem.read, List.getElem_map, List.getElem_range]
    rw [hoff]
  · rw [Mem.write_of_ge _ _ (by rw [Mem.length_read]; simp only [auth_probe_password]; omega),
      Field.set_of_ge (by simp only [auth_probe_password_len]; omega),
      Field.set_of_ge (by simp only [auth_probe_id]; omega)]

theorem auth_ggd_decoded (m body : Mem) (rg : UInt32) :
    auth_random_ggd.get (decodeAuth (auth_random_ggd.set m (htonl rg.toNat)) body).body =
      rg.toNat := by
  have h : rg.toNat < 2 ^ 32 := rg.toNat_lt
  have hlt := swap_lt 4 rg.toNat
  simp only [decodeAuth]
  rw [Field.get_set, Field.get_set, htonl, uint32_toNat, ntohl]
  simp only [auth_random_ggd]
  rw [Nat.mod_eq_of_lt hlt, swap_swap (by omega), Nat.mod_eq_of_lt (by omega)]

/-- What a decoded `AUTH` with a password that fits its array says. -/
theorem auth_decoded {heap : Mem} {probe_id : UInt16} {pass : CStr} {rp rg : UInt32}
    {built : Built} (h : ((Msg.auth probe_id pass rp rg).construct heap).built = some built)
    (hp : pass.1.length ≤ 16) (body : Mem) :
    auth_probe_id.get (decodeAuth built.body body).body = 0 ∧
    auth_probe_password_len.get (decodeAuth built.body body).body = 0 ∧
    auth_random_ggd.get (decodeAuth built.body body).body = rg.toNat ∧
    (auth_random_probe.get (decodeAuth built.body body).body = rp.toNat ↔
      le 4 rp.toNat = (List.range 4).map fun j : ℕ =>
        if 16 + j < rp.toNat / 256 % 256 then 0 else body (24 + j)) := by
  obtain ⟨m, hm, -, hb⟩ := auth_built h
  have hzero := auth_sent_random hm hp (htonl rp.toNat) (htonl rg.toNat)
  have hhead := auth_head_decoded built.body body
  have htail := auth_tail_decoded built.body body
  have hlen := auth_sent_len
    (m.write 8 ((pass.1 ++ [0]).take (size_t (int32 pass.1.length + 1)))) rp rg
  have hrp : rp.toNat < 256 ^ 4 := rp.toNat_lt
  rw [← hb] at hzero hlen
  rw [hzero] at hhead
  -- the zeros that were read as the probe's random are stored over the head of the body
  have hid : (decodeAuth built.body body).body.read 5 2 = [0, 0] := by
    rw [← Mem.take_read _ _ (show 2 ≤ 4 by norm_num), hhead]
    rfl
  have hpl : (decodeAuth built.body body).body.read 7 1 = [0] := by
    rw [← Mem.take_read _ _ (show 1 ≤ 2 by norm_num),
      show (7 : ℤ) = 5 + (2 : ℕ) by norm_num, ← Mem.drop_read _ _ (show 2 ≤ 4 by norm_num), hhead]
    rfl
  have hbuf : ∀ j : ℕ, j < 4 → built.body (24 + j) = 0 := by
    intro j hj
    have hget := Mem.getElem?_read built.body 24 hj
    rw [hzero] at hget
    interval_cases j <;> simpa using hget.symm
  refine ⟨?_, ?_, ?_, ?_⟩
  · rw [Field.get]
    simp only [auth_probe_id]
    rw [hid]
    rfl
  · rw [Field.get]
    simp only [auth_probe_password_len]
    rw [hpl]
    rfl
  · rw [hb]
    exact auth_ggd_decoded _ body rg
  · rw [Field.get]
    simp only [auth_random_probe]
    rw [ofLe_eq_iff (Mem.length_read _ _ _) hrp, htail, hlen]
    apply Eq.congr_right
    apply List.map_congr_left
    intro j hj
    rw [hbuf j (List.mem_range.1 hj)]

/-- A decoded `AUTH` has its arguments if it has no password and no id and its random is what
the static body happens to hold. -/
theorem auth_fields_iff (g : ℕ) {heap : Mem} {probe_id : UInt16} {pass : CStr} {rp rg : UInt32}
    {built : Built} (h : ((Msg.auth probe_id pass rp rg).construct heap).built = some built)
    (body : Mem) :
    (Msg.auth probe_id pass rp rg).Fields
        (decodeAuth built.body (type.set body MsgType.AUTH.code)).body ↔
      (Msg.auth probe_id pass rp rg).Intact g body := by
  have hstatic : ∀ j : ℕ, (type.set body MsgType.AUTH.code) (24 + j) = body (24 + j) :=
    fun j => Field.set_of_ge (by simp only [type]; omega) _ _
  have hdec := fun hp => auth_decoded h hp (type.set body MsgType.AUTH.code)
  simp only [hstatic] at hdec
  simp only [Msg.Fields, Msg.Intact]
  constructor
  · rintro ⟨hid, hlen, hpass, hrp, -⟩
    -- a longer password is not in the array of the decoded body
    have hp : pass.1.length ≤ 16 := by
      rw [← hpass, List.length_take, Mem.length_read]
      exact min_le_right _ _
    obtain ⟨hid', hlen', -, hrp'⟩ := hdec hp
    rw [hid'] at hid
    rw [hlen'] at hlen
    refine ⟨?_, List.length_eq_zero_iff.1 hlen.symm, hrp'.1 hrp⟩
    exact UInt16.toNat_inj.1 hid.symm
  · rintro ⟨rfl, hpass, hrp⟩
    obtain ⟨hid', hlen', hrg', hrp'⟩ := hdec (by simp [hpass])
    refine ⟨hid', ?_, ?_, hrp'.2 hrp, hrg'⟩
    · rw [hlen', hpass]
      rfl
    · rw [hlen', hpass]
      rfl

/-! ### `NOTICE` -/

/-- The length field of a constructed notice. -/
theorem notice_sent_len {heap : Mem} {msg : CStr} {built : Built}
    (h : ((Msg.notice msg).construct heap).built = some built) :
    notice_len.get built.body = msg.1.length % 65536 := by
  rw [notice_built h, Field.get_write_before (by decide), Field.get_set]
  simp only [notice_len, uint16, int32]
  omega

/-- The length of a notice comes out with its bytes in the other order. -/
theorem notice_decoded {heap : Mem} {msg : CStr} {built : Built}
    (h : ((Msg.notice msg).construct heap).built = some built) (hl : msg.1.length ≤ 60)
    (body : Mem) : notice_len.get (decodeNotice built.body body).body = 256 * msg.1.length := by
  have hswap : swap 2 msg.1.length = 256 * msg.1.length := by
    simp only [swap, le, List.reverse_cons, List.reverse_nil, List.nil_append, List.cons_append,
      ofLe, UInt8.toNat_ofNat']
    omega
  have hbuf : notice_len.get built.body = msg.1.length := by
    rw [notice_sent_len h]
    omega
  simp only [decodeNotice, hbuf]
  rw [Field.get_write_before (by decide), Field.get_set, ntohs, hswap,
    Nat.mod_eq_of_lt (by simp only [notice_len]; omega)]

/-- A decoded notice has its argument if there is none. -/
theorem notice_fields_iff (g : ℕ) {heap : Mem} {msg : CStr} {built : Built}
    (h : ((Msg.notice msg).construct heap).built = some built) (body : Mem) :
    (Msg.notice msg).Fields
        (decodeNotice built.body (type.set body MsgType.NOTICE.code)).body ↔
      (Msg.notice msg).Intact g body := by
  simp only [Msg.Fields, Msg.Intact]
  constructor
  · rintro ⟨hlen, hmsg⟩
    have hl : msg.1.length ≤ 60 := by
      rw [← hmsg, List.length_take, Mem.length_read]
      exact min_le_right _ _
    rw [notice_decoded h hl] at hlen
    -- `256 * n = n`
    exact List.length_eq_zero_iff.1 (by omega)
  · intro hnil
    rw [notice_decoded h (by simp [hnil]), hnil]
    exact ⟨rfl, rfl⟩

/-! ### The main result -/

/-- **Round trip.**  A constructed message is recovered by the decoder exactly if it is one of
those that survive. -/
theorem decode_encode_iff (g : ℕ) (m : Msg) (heap body : Mem) {built : Built}
    (h : (m.construct heap).built = some built) :
    m.Recovered (ggpkt_mod_0_internal_decode g built.body body) ↔ m.Intact g body := by
  have ht := type_construct h
  have htype := type_decode g built.body body
  rw [ht] at htype
  unfold Msg.Recovered
  rw [htype]
  simp only [ggpkt_mod_0_internal_decode, ht]
  cases m with
  | hello rand =>
    cases h
    exact iff_of_true ⟨rfl, trivial, htonl_decoded rfl _ _ rand⟩ trivial
  | hello_res rand =>
    cases h
    exact iff_of_true ⟨rfl, trivial, htonl_decoded rfl _ _ rand⟩ trivial
  | ping rand =>
    cases h
    simp only [Msg.type, MsgType.ofCode_code, Msg.Fields, Msg.Intact,
      host_decoded (f := ping_random) rfl]
    exact ⟨fun h => h.2.2, fun h => ⟨rfl, trivial, h⟩⟩
  | ping_res random_res =>
    cases h
    simp only [Msg.type, MsgType.ofCode_code, Msg.Fields, Msg.Intact,
      host_decoded (f := ping_res_random_res) rfl]
    exact ⟨fun h => h.2.2, fun h => ⟨rfl, trivial, h⟩⟩
  | auth_res status =>
    cases h
    simp only [Msg.type, MsgType.ofCode_code, Msg.Fields, Msg.Intact, status_decoded]
    rw [Nat.cast_ite, Nat.cast_zero]
    exact ⟨fun h => h.2.2, fun h => ⟨rfl, trivial, h⟩⟩
  | auth probe_id pass random_probe random_ggd =>
    have hiff := auth_fields_iff g h body
    exact ⟨fun hrec => hiff.1 hrec.2.2, fun hint => ⟨rfl, trivial, hiff.2 hint⟩⟩
  | notice msg =>
    have hiff := notice_fields_iff g h body
    exact ⟨fun hrec => hiff.1 hrec.2.2, fun hint => ⟨rfl, trivial, hiff.2 hint⟩⟩

/-- A greeting survives. -/
theorem decode_encode_hello :
    ∃ built, ((Msg.hello 0xdeadbeef).construct .zeros).built = some built ∧
      (Msg.hello 0xdeadbeef).Recovered (ggpkt_mod_0_internal_decode 1 built.body .zeros) :=
  ⟨_, rfl, (decode_encode_iff 1 (.hello 0xdeadbeef) .zeros .zeros rfl).2 trivial⟩

/-- A notice of two letters. -/
def hi : CStr := ⟨ascii "hi", by decide⟩

/-- The length of the notice "hi" comes out as 512. -/
theorem decode_encode_notice :
    ∃ built, ((Msg.notice hi).construct .zeros).built = some built ∧
      ¬ (Msg.notice hi).Recovered (ggpkt_mod_0_internal_decode 1 built.body .zeros) := by
  obtain ⟨built, h⟩ : ∃ built, ((Msg.notice hi).construct .zeros).built = some built := by
    simp only [Msg.construct, ggpkt_mod_0_internal_notice]
    rw [if_neg (by decide)]
    exact ⟨_, rfl⟩
  refine ⟨built, h, ?_⟩
  rintro ⟨-, -, hlen, -⟩
  simp only [ggpkt_mod_0_internal_decode, type_construct h, Msg.type, MsgType.ofCode_code] at hlen
  rw [notice_decoded h (by decide)] at hlen
  exact absurd hlen (by decide)

end Ggpkt
