import Glouglou.Libglouglou.Packet.RoundTrip

/-!
# What the constructors copy and announce

Two questions about a constructed packet before it is sent.  Does it hold the string it was made
from, inside its array and with its length (`Built.Holds`)?  Is the length that `_get_len`
announces enough for the decoder, and inside the body (`Announced`)?

`string_accepted_iff` answers the first for the two constructors that take a string, and
`get_len_iff` the second for all seven.
-/

open CInt CString Words

namespace Ggpkt

/-! ### Strings -/

/-- The pointer is `NULL`; the `-1` of the error paths is not. -/
def Ret.IsNull : Ret → Prop
  | .error => (-1 : ℤ) = 0
  | _ => False

/-- No constructor returns `NULL`. -/
theorem Ret.not_null (r : Ret) : ¬ r.IsNull := by
  cases r with
  | pkt => exact id
  | body => exact id
  | error =>
    unfold IsNull
    decide

/-- A body holds a string with its terminator in an array of `cap` bytes at `off`, and its length;
nothing was copied past the array. -/
structure Built.Holds (built : Built) (off : ℤ) (cap : ℕ) (len : Words.Field) (s : CStr) :
    Prop where
  string : built.body.read off (s.1.length + 1) = s.1 ++ [0]
  inside : s.1.length + 1 ≤ cap
  length : len.get built.body = s.1.length
  copies : ∀ c ∈ built.copies, c.Fits

/-- A constructor refuses its string with `NULL`, or returns a packet that holds it. -/
def Ret.Accepts (r : Ret) (off : ℤ) (cap : ℕ) (len : Words.Field) (s : CStr) : Prop :=
  r.IsNull ∨ ∃ built, r = .pkt built ∧ built.Holds off cap len s

theorem Ret.accepts_iff {r : Ret} {off : ℤ} {cap : ℕ} {len : Words.Field} {s : CStr} :
    r.Accepts off cap len s ↔ ∃ built, r = .pkt built ∧ built.Holds off cap len s :=
  or_iff_right r.not_null

/-- A copy of a short string is the string and its terminator. -/
theorem copyString_short (m : Mem) (off : ℤ) (cap : ℕ) {s : CStr} (h : s.1.length ≤ 60) :
    copyString m off cap s (int32 s.1.length) =
      ⟨m.write off (s.1 ++ [0]), [⟨cap, s.1.length + 1⟩]⟩ := by
  have hsize : size_t (int32 s.1.length + 1) = s.1.length + 1 := by
    rw [int32_of_mem (by omega) (by unfold INT_MAX; omega), size_t]
    omega
  rw [copyString, hsize, List.take_of_length_le (by simp)]

/-- The packet of a message that the constructor does not refuse. -/
theorem notice_short (heap : Mem) {msg : CStr} (h : msg.1.length ≤ 60) :
    ggpkt_mod_0_internal_notice heap msg =
      .pkt ⟨(notice_len.set (NEWPKT heap .NOTICE) msg.1.length).write notice_msg (msg.1 ++ [0]),
        [⟨GGPKT_ARG_MAX, msg.1.length + 1⟩]⟩ := by
  have hlen : int32 msg.1.length = msg.1.length :=
    int32_of_mem (by omega) (by unfold INT_MAX; omega)
  have huint : uint16 (int32 msg.1.length) = msg.1.length := by
    rw [hlen, uint16]
    omega
  have hneg : ¬ (GGPKT_ARG_MAX : ℤ) < int32 msg.1.length := by
    rw [hlen, GGPKT_ARG_MAX]
    omega
  simp only [ggpkt_mod_0_internal_notice]
  rw [if_neg hneg, copyString_short _ _ _ h, huint]

/-- A message is accepted if its terminator fits too. -/
theorem notice_accepts_iff (heap : Mem) (msg : CStr) :
    (ggpkt_mod_0_internal_notice heap msg).Accepts notice_msg GGPKT_ARG_MAX notice_len msg ↔
      msg.1.length ≤ 59 := by
  rw [Ret.accepts_iff]
  constructor
  · rintro ⟨built, -, hholds⟩
    have hin := hholds.inside
    unfold GGPKT_ARG_MAX at hin
    omega
  · intro h
    refine ⟨_, notice_short heap (by omega), ?_, ?_, ?_, ?_⟩
    · have hread := Mem.read_write_self (notice_len.set (NEWPKT heap .NOTICE) msg.1.length)
        notice_msg (msg.1 ++ [0])
      rwa [List.length_append, List.length_singleton] at hread
    · unfold GGPKT_ARG_MAX
      omega
    · rw [Field.get_write_before (by decide), Field.get_set]
      exact Nat.mod_eq_of_lt (by simp only [notice_len]; omega)
    · intro c hc
      rw [List.mem_singleton.1 hc]
      show msg.1.length + 1 ≤ 60
      omega

/-- The password constructor returns its body, or `-1`. -/
theorem auth_not_accepts (heap : Mem) (probe_id : ℤ) (pass : CStr) (random_probe random_ggd : ℤ)
    (off : ℤ) (cap : ℕ) (len : Words.Field) :
    ¬ (ggpkt_mod_0_internal_hello_auth heap probe_id pass random_probe random_ggd).Accepts
      off cap len pass := by
  rw [Ret.accepts_iff]
  rintro ⟨built, h, -⟩
  simp only [ggpkt_mod_0_internal_hello_auth] at h
  split_ifs at h

/-- The body of a password that the constructor does not refuse. -/
theorem auth_short (heap : Mem) (probe_id : ℤ) {pass : CStr} (random_probe random_ggd : ℤ)
    (h : pass.1.length ≤ 60) :
    ∃ m : Mem, ggpkt_mod_0_internal_hello_auth heap probe_id pass random_probe random_ggd =
      .body ⟨auth_random_ggd.set (hello_random_probe.set
          (m.write auth_probe_password (pass.1 ++ [0])) (htonl random_probe)) (htonl random_ggd),
        [⟨GLOUGLOU_PASS_SIZE_MAX, pass.1.length + 1⟩]⟩ := by
  have hneg : ¬ (GGPKT_ARG_MAX : ℤ) < int32 pass.1.length := by
    rw [int32_of_mem (by omega) (by unfold INT_MAX; omega), GGPKT_ARG_MAX]
    omega
  refine ⟨auth_probe_password_len.set (auth_probe_id.set (NEWPKT heap .AUTH) (htons probe_id))
    (uint8 (int32 pass.1.length)), ?_⟩
  simp only [ggpkt_mod_0_internal_hello_auth]
  rw [if_neg hneg, copyString_short _ _ _ h]

/-- The probe's random stands over the length and the first byte of the password. -/
theorem random_over_password (m : Mem) (x : ℤ) :
    hello_random_probe.set m (htonl x) 7 = UInt8.ofNat ((uint32 x).toNat / 256) ∧
      hello_random_probe.set m (htonl x) 8 = UInt8.ofNat (uint32 x).toNat := by
  have hle : le hello_random_probe.size (htonl x) = (le 4 (uint32 x).toNat).reverse :=
    le_swap 4 _
  rw [Field.set, hle]
  exact ⟨rfl, rfl⟩

/-- What is left of a string at the place of the password. -/
theorem read_random_over (m : Mem) (x : ℤ) (c : UInt8) (l : List UInt8) :
    (hello_random_probe.set (m.write auth_probe_password (c :: l)) (htonl x)).read
      auth_probe_password (l.length + 1) = UInt8.ofNat (uint32 x).toNat :: l := by
  have hfirst : (hello_random_probe.set (m.write auth_probe_password (c :: l)) (htonl x)).read
      auth_probe_password 1 = [UInt8.ofNat (uint32 x).toNat] := by
    rw [← (random_over_password (m.write auth_probe_password (c :: l)) x).2]
    rfl
  have hrest : (hello_random_probe.set (m.write auth_probe_password (c :: l)) (htonl x)).read
      (auth_probe_password + (1 : ℕ)) l.length = l := by
    have hdrop := Mem.drop_read (m.write auth_probe_password (c :: l)) auth_probe_password
      (show 1 ≤ (c :: l).length by simp)
    rw [Mem.read_write_self, List.length_cons, Nat.add_sub_cancel] at hdrop
    rw [Field.set, Mem.read_write_after _ _ (by simp [hello_random_probe, auth_probe_password]),
      ← hdrop]
    rfl
  rw [Nat.add_comm, Mem.read_add, hfirst, hrest]
  rfl

/-- The body holds the password if the random agrees with what it stands over. -/
theorem auth_holds_iff {heap : Mem} {probe_id random_probe random_ggd : ℤ} {pass : CStr}
    {built : Built}
    (h : (ggpkt_mod_0_internal_hello_auth heap probe_id pass random_probe random_ggd).built =
      some built) :
    built.Holds auth_probe_password GLOUGLOU_PASS_SIZE_MAX auth_probe_password_len pass ↔
      pass.1.length ≤ 15 ∧ (uint32 random_probe).toNat / 256 % 256 = pass.1.length ∧
        UInt8.ofNat (uint32 random_probe).toNat = pass.1.headD 0 := by
  by_cases h15 : pass.1.length ≤ 15
  · obtain ⟨m, hm⟩ := auth_short heap probe_id random_probe random_ggd
      (show pass.1.length ≤ 60 by omega)
    rw [hm] at h
    simp only [Ret.built, Option.some.injEq] at h
    subst h
    have hlen : auth_probe_password_len.get (auth_random_ggd.set (hello_random_probe.set
        (m.write auth_probe_password (pass.1 ++ [0])) (htonl random_probe)) (htonl random_ggd)) =
        (uint32 random_probe).toNat / 256 % 256 := by
      rw [Field.get_set_before (by decide), Field.get_byte rfl]
      exact (congrArg UInt8.toNat (random_over_password _ _).1).trans UInt8.toNat_ofNat'
    -- the string and its terminator, split where the random ends
    obtain ⟨c, l, hcl, hc⟩ : ∃ c l, pass.1 ++ [0] = c :: l ∧ pass.1.headD 0 = c := by
      rcases pass with ⟨_ | ⟨c, l⟩, hz⟩
      · exact ⟨0, [], rfl, rfl⟩
      · exact ⟨c, l ++ [0], rfl, rfl⟩
    have hsize : pass.1.length + 1 = l.length + 1 := by
      have := congrArg List.length hcl
      rwa [List.length_append, List.length_singleton, List.length_cons] at this
    have hread : (auth_random_ggd.set (hello_random_probe.set
        (m.write auth_probe_password (pass.1 ++ [0])) (htonl random_probe))
        (htonl random_ggd)).read auth_probe_password (pass.1.length + 1) =
        UInt8.ofNat (uint32 random_probe).toNat :: l := by
      rw [Field.set, Mem.read_write_before _ _ (by
          simp only [auth_random_ggd, auth_probe_password]
          omega), hcl, hsize]
      exact read_random_over m random_probe c l
    constructor
    · intro hb
      refine ⟨h15, hlen.symm.trans hb.length, ?_⟩
      rw [hc]
      exact List.head_eq_of_cons_eq (hread.symm.trans (hb.string.trans hcl))
    · rintro ⟨-, hl, hfirst⟩
      refine ⟨?_, by unfold GLOUGLOU_PASS_SIZE_MAX; omega, hlen.trans hl, ?_⟩
      · rw [hread, hfirst, hc, hcl]
      · intro copy hcopy
        rw [List.mem_singleton.1 hcopy]
        show pass.1.length + 1 ≤ 16
        omega
  · refine iff_of_false (fun hb => h15 ?_) fun hb => h15 hb.1
    have hin := hb.inside
    unfold GLOUGLOU_PASS_SIZE_MAX at hin
    omega

/-- **Strings in constructors.**  A message is accepted exactly if it is shorter than its array.
A password never is: what comes back is the body, or `-1`, and the body holds the password only
if it fits and the probe's random repeats its length and its first byte. -/
theorem string_accepted_iff (heap : Mem) :
    (∀ msg : CStr, (ggpkt_mod_0_internal_notice heap msg).Accepts notice_msg GGPKT_ARG_MAX
      notice_len msg ↔ msg.1.length ≤ 59) ∧
    ∀ (probe_id : ℤ) (pass : CStr) (random_probe random_ggd : ℤ),
      ¬ (ggpkt_mod_0_internal_hello_auth heap probe_id pass random_probe random_ggd).Accepts
        auth_probe_password GLOUGLOU_PASS_SIZE_MAX auth_probe_password_len pass ∧
      ∀ built, (ggpkt_mod_0_internal_hello_auth heap probe_id pass random_probe
          random_ggd).built = some built →
        (built.Holds auth_probe_password GLOUGLOU_PASS_SIZE_MAX auth_probe_password_len pass ↔
          pass.1.length ≤ 15 ∧ (uint32 random_probe).toNat / 256 % 256 = pass.1.length ∧
            UInt8.ofNat (uint32 random_probe).toNat = pass.1.headD 0) :=
  ⟨notice_accepts_iff heap, fun _ _ _ _ =>
    ⟨auth_not_accepts heap _ _ _ _ _ _ _, fun _ h => auth_holds_iff h⟩⟩

/-- A string of sixty letters. -/
def sixty : CStr := ⟨List.replicate 60 65, by decide⟩

/-- A message of the maximal length is written past its array, and so is a password. -/
theorem string_overflow :
    ¬ (ggpkt_mod_0_internal_notice .zeros sixty).Accepts notice_msg GGPKT_ARG_MAX notice_len
      sixty ∧
    (∃ built, ggpkt_mod_0_internal_notice .zeros sixty = .pkt built ∧
      ∃ c ∈ built.copies, ¬ c.Fits) ∧
    ¬ (ggpkt_mod_0_internal_hello_auth .zeros 1 sixty 0 0).Accepts auth_probe_password
      GLOUGLOU_PASS_SIZE_MAX auth_probe_password_len sixty ∧
    ∃ built, ggpkt_mod_0_internal_hello_auth .zeros 1 sixty 0 0 = .body built ∧
      ∃ c ∈ built.copies, ¬ c.Fits := by
  have h60 : sixty.1.length ≤ 60 := by decide
  obtain ⟨m, hm⟩ := auth_short .zeros 1 0 0 h60
  refine ⟨?_, ⟨_, notice_short .zeros h60, ?_⟩, auth_not_accepts _ _ _ _ _ _ _ _, _, hm, ?_⟩
  · rw [notice_accepts_iff]
    decide
  · exact ⟨⟨60, 61⟩, List.mem_singleton.2 rfl, by decide⟩
  · exact ⟨⟨16, 61⟩, List.mem_singleton.2 rfl, by decide⟩

/-! ### `_get_len` -/

/-- The sizes of the structures of the union, and of the union. -/
def sizeof_hello : ℕ := 4
def sizeof_hello_res : ℕ := 4
def sizeof_auth : ℕ := 2 + 1 + GLOUGLOU_PASS_SIZE_MAX + 4 + 4
def sizeof_auth_res : ℕ := 1
def sizeof_notice : ℕ := 2 + GGPKT_ARG_MAX
def sizeof_ping : ℕ := 4
def sizeof_ping_res : ℕ := 4
def sizeof_data : ℕ := 62

/-- The `switch` of `_get_len` on a body; the sums are far below `INT_MAX`. -/
def sizeOfBody (body : Mem) : ℤ :=
  match MsgType.ofCode (type.get body) with
  | some .HELLO => sizeof_hello
  | some .HELLO_RES => sizeof_hello_res
  | some .AUTH => sizeof_auth + auth_probe_password_len.get body
  | some .AUTH_RES => sizeof_auth_res
  | some .NOTICE => sizeof_notice + notice_len.get body
  | some .PING => sizeof_ping
  | some .PING_RES => sizeof_ping_res
  | none => -1

/-- `_get_len` of what a constructor returned.  The pointer `pkt->body` that it loads is in a
packet only, neither in a body nor behind `-1`. -/
def get_len : Ret → Option ℤ
  | .pkt built => some (sizeOfBody built.body)
  | .body _ => none
  | .error => none

/-- A length counted from the union covers what the decoder reads of a body, and ends within the
union. -/
def Covers (g : ℕ) (body : Mem) (L : ℤ) : Prop :=
  (∀ static : Mem, ∀ f ∈ (ggpkt_mod_0_internal_decode g body static).reads,
    f.off + f.size ≤ 5 + L) ∧ L ≤ sizeof_data

/-- A constructor returned a packet, wrote nothing past the arrays of its body, and the length
that the packet announces is right. -/
def Announced (g : ℕ) (r : Ret) : Prop :=
  ∃ built L, r = .pkt built ∧ (∀ c ∈ built.copies, c.Fits) ∧ get_len r = some L ∧
    Covers g built.body L

/-- The messages whose length is right.  An `AUTH` is no packet, an `AUTH_RES` is too short for
its decoder, and the size of a notice already has its whole array. -/
def Msg.LenFits : Msg → Prop
  | hello _ | hello_res _ | ping _ | ping_res _ => True
  | auth _ _ _ _ | auth_res _ => False
  | notice msg => msg.1.length % 2 ^ 32 = 0

theorem announced_pkt_iff {g : ℕ} {built : Built} : Announced g (.pkt built) ↔
    (∀ c ∈ built.copies, c.Fits) ∧ Covers g built.body (sizeOfBody built.body) := by
  constructor
  · rintro ⟨b, L, hb, hcopies, hL, hcovers⟩
    cases hb
    cases hL
    exact ⟨hcopies, hcovers⟩
  · rintro ⟨hcopies, hcovers⟩
    exact ⟨built, _, rfl, hcopies, rfl, hcovers⟩

theorem covers_notice_iff {g : ℕ} {body : Mem}
    (h : MsgType.ofCode (type.get body) = some .NOTICE) :
    Covers g body (sizeOfBody body) ↔ notice_len.get body = 0 := by
  have hl : sizeOfBody body = 62 + notice_len.get body := by
    simp only [sizeOfBody, h]
    rfl
  unfold Covers
  rw [hl]
  constructor
  · rintro ⟨-, hle⟩
    unfold sizeof_data at hle
    omega
  · intro h0
    refine ⟨fun static f hf => ?_, by rw [h0]; decide⟩
    simp only [ggpkt_mod_0_internal_decode, h, decodeNotice, h0, List.mem_cons,
      List.not_mem_nil, or_false] at hf
    rw [h0]
    rcases hf with rfl | rfl | rfl
    · decide
    · decide
    · decide

/-- The decoder looks for a word behind the status. -/
theorem not_covers_auth_res {g : ℕ} {body : Mem}
    (h : MsgType.ofCode (type.get body) = some .AUTH_RES) :
    ¬ Covers g body (sizeOfBody body) := by
  rintro ⟨hreads, -⟩
  have hl : sizeOfBody body = 1 := by
    simp only [sizeOfBody, h]
    rfl
  have hword := hreads .zeros (auth_res_random_ggd g) (by
    simp only [ggpkt_mod_0_internal_decode, h]
    exact List.mem_cons_of_mem _ List.mem_cons_self)
  rw [hl] at hword
  simp only [auth_res_random_ggd] at hword
  omega

/-- The four structures with one word, at the start of the union. -/
theorem announced_word (g : ℕ) {m : Msg} {heap : Mem} {built : Built}
    (hpkt : m.construct heap = .pkt built) (hcopies : built.copies = [])
    (hm : m.type = .HELLO ∨ m.type = .HELLO_RES ∨ m.type = .PING ∨ m.type = .PING_RES) :
    Announced g (m.construct heap) := by
  have ht : MsgType.ofCode (type.get built.body) = some m.type := by
    rw [type_construct (congrArg Ret.built hpkt), MsgType.ofCode_code]
  have hl : sizeOfBody built.body = 4 := by
    rcases hm with hm | hm | hm | hm <;> simp only [sizeOfBody, ht, hm] <;> rfl
  have hreads : ∀ static, (ggpkt_mod_0_internal_decode g built.body static).reads =
      [type, ⟨5, 4⟩] := by
    intro static
    rcases hm with hm | hm | hm | hm <;>
      simp only [ggpkt_mod_0_internal_decode, ht, hm] <;> rfl
  rw [hpkt, announced_pkt_iff, hcopies, hl]
  refine ⟨fun c hc => (List.not_mem_nil hc).elim, fun static f hf => ?_, by decide⟩
  rw [hreads static, List.mem_cons, List.mem_singleton] at hf
  rcases hf with rfl | rfl <;> decide

/-- What is returned for a password is not a packet. -/
theorem not_announced_auth (g : ℕ) (heap : Mem) (probe_id : ℤ) (pass : CStr)
    (random_probe random_ggd : ℤ) : ¬ Announced g
      (ggpkt_mod_0_internal_hello_auth heap probe_id pass random_probe random_ggd) := by
  rintro ⟨built, L, h, -⟩
  simp only [ggpkt_mod_0_internal_hello_auth] at h
  split_ifs at h

/-- The array of a notice is at the end of the union, so there is no room for its length. -/
theorem announced_notice_iff {g : ℕ} {heap : Mem} {msg : CStr}
    (h : ggpkt_mod_0_internal_notice heap msg ≠ .error) :
    Announced g (ggpkt_mod_0_internal_notice heap msg) ↔ msg.1.length % 2 ^ 32 = 0 := by
  by_cases hneg : (GGPKT_ARG_MAX : ℤ) < int32 msg.1.length
  · refine absurd ?_ h
    simp only [ggpkt_mod_0_internal_notice]
    rw [if_pos hneg]
  obtain ⟨built, hpkt, hcopies⟩ : ∃ built, (Msg.notice msg).construct heap = .pkt built ∧
      built.copies = [⟨GGPKT_ARG_MAX, size_t (int32 msg.1.length + 1)⟩] := by
    simp only [Msg.construct, ggpkt_mod_0_internal_notice]
    rw [if_neg hneg]
    exact ⟨_, rfl, rfl⟩
  have hbuilt : ((Msg.notice msg).construct heap).built = some built := congrArg Ret.built hpkt
  have htype : MsgType.ofCode (type.get built.body) = some .NOTICE := by
    rw [type_construct hbuilt, MsgType.ofCode_code]
    rfl
  rw [show ggpkt_mod_0_internal_notice heap msg = .pkt built from hpkt, announced_pkt_iff,
    covers_notice_iff htype, notice_sent_len hbuilt, hcopies]
  simp only [List.mem_singleton, forall_eq, Memcpy.Fits]
  unfold GGPKT_ARG_MAX at hneg ⊢
  unfold size_t int32 at *
  omega

/-- **Announced lengths.**  A constructor that does not refuse its arguments returns a packet whose
length covers what the decoder reads and stays within the union exactly for the packets with one
word and the notices of length zero. -/
theorem get_len_iff (g : ℕ) (m : Msg) (heap : Mem) (h : m.construct heap ≠ .error) :
    Announced g (m.construct heap) ↔ m.LenFits := by
  cases m with
  | auth probe_id pass random_probe random_ggd =>
    simp only [Msg.construct]
    exact iff_of_false (not_announced_auth g heap _ _ _ _) id
  | auth_res status =>
    obtain ⟨built, hpkt⟩ : ∃ built, (Msg.auth_res status).construct heap = .pkt built := ⟨_, rfl⟩
    have htype : MsgType.ofCode (type.get built.body) = some .AUTH_RES := by
      rw [type_construct (congrArg Ret.built hpkt), MsgType.ofCode_code]
      rfl
    rw [hpkt, announced_pkt_iff]
    exact iff_of_false (fun ha => not_covers_auth_res htype ha.2) id
  | notice msg =>
    simp only [Msg.construct] at h ⊢
    exact announced_notice_iff h
  | hello r => exact iff_of_true (announced_word g rfl rfl (.inl rfl)) trivial
  | hello_res r => exact iff_of_true (announced_word g rfl rfl (.inr (.inl rfl))) trivial
  | ping r => exact iff_of_true (announced_word g rfl rfl (.inr (.inr (.inl rfl)))) trivial
  | ping_res r => exact iff_of_true (announced_word g rfl rfl (.inr (.inr (.inr rfl)))) trivial

/-- A `HELLO`. -/
theorem get_len_hello : Announced 1 (ggpkt_mod_0_internal_hello .zeros 7) :=
  (get_len_iff 1 (.hello 7) .zeros Ret.noConfusion).2 trivial

/-- The length of a notice of two letters ends two bytes behind the union, and the decoder would
read 514 bytes of it. -/
theorem get_len_notice :
    ¬ Announced 1 (ggpkt_mod_0_internal_notice .zeros hi) ∧
    get_len (ggpkt_mod_0_internal_notice .zeros hi) = some 64 ∧
    ∃ built, ggpkt_mod_0_internal_notice .zeros hi = .pkt built ∧
      ∃ f ∈ (ggpkt_mod_0_internal_decode 1 built.body .zeros).reads, f.off + f.size = 519 := by
  have hpkt := notice_short .zeros (show hi.1.length ≤ 60 by decide)
  refine ⟨?_, ?_, _, hpkt, ⟨7, 512⟩, by decide, by decide⟩
  · rw [announced_notice_iff (hpkt ▸ Ret.noConfusion)]
    decide
  · rw [hpkt]
    exact congrArg some (by decide)

end Ggpkt
