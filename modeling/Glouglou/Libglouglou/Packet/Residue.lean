import Glouglou.Libglouglou.Packet.Safety

/-!
# What a decoded string shows of earlier packets

The decoder fills a static body that it never clears, and copies `len` bytes of a string without
the terminator that the constructors send behind them.  The caller then reads the string up to
the first zero byte (`text`).  A packet is shielded from the packets decoded before it exactly
if this byte is among those that the packet itself determines (`Terminated`).
-/

open CInt CString Words

namespace Ggpkt

/-- The static body after these packets. -/
def after (g : ℕ) (history : List Mem) : Mem :=
  history.foldl (fun body bufbody => (ggpkt_mod_0_internal_decode g bufbody body).body) .zeros

/-- The string that the caller reads from a decoded body, which it does not leave: the password
or the message. -/
def text (body : Mem) : List UInt8 :=
  match MsgType.ofCode (type.get body) with
  | some .AUTH => view (body.read auth_probe_password 60)
  | some .NOTICE => view (body.read notice_msg 61)
  | _ => []

/-- The length field, if there is one, is within its array. -/
def LenInRange (bufbody : Mem) : Prop :=
  match MsgType.ofCode (type.get bufbody) with
  | some .AUTH => auth_probe_password_len.get bufbody ≤ GLOUGLOU_PASS_SIZE_MAX
  | some .NOTICE => ntohs (notice_len.get bufbody) ≤ GGPKT_ARG_MAX
  | _ => True

/-- The string of a packet does not depend on the packets decoded before. -/
def Isolated (g : ℕ) (bufbody : Mem) : Prop :=
  ∀ h₁ h₂ : List Mem, (∀ b ∈ h₁, LenInRange b) → (∀ b ∈ h₂, LenInRange b) →
    text (ggpkt_mod_0_internal_decode g bufbody (after g h₁)).body =
      text (ggpkt_mod_0_internal_decode g bufbody (after g h₂)).body

/-- The string of a packet ends within what the packet determines: a zero byte is sent within
the length, where the first byte of a password is the first one of the probe's random, or a
message fills its array and the byte of padding behind it ends it. -/
def Terminated (bufbody : Mem) : Prop :=
  match MsgType.ofCode (type.get bufbody) with
  | some .AUTH => bufbody 24 = 0 ∨
      ∃ i : ℕ, 1 ≤ i ∧ i < auth_probe_password_len.get bufbody ∧ bufbody (8 + i) = 0
  | some .NOTICE => ntohs (notice_len.get bufbody) = 60 ∨
      ∃ i : ℕ, i < ntohs (notice_len.get bufbody) ∧ bufbody (7 + i) = 0
  | _ => True

/-! ### What a packet determines -/

/-- A byte of a copy. -/
theorem write_read (m m' : Mem) (a b : ℤ) {n i : ℕ} (h : i < n) :
    m.write a (m'.read b n) (a + i) = m' (b + i) := by
  rw [m.write_inside a _ (by rwa [Mem.length_read])]
  simp only [Mem.read, List.getElem_map, List.getElem_range]

/-- The first byte of a decoded password. -/
theorem decodeAuth_first (buf body : Mem) : (decodeAuth buf body).body 8 = buf 24 := by
  simp only [decodeAuth]
  rw [Field.set_of_lt (by decide), set_ntohl_get rfl rfl]
  exact Mem.write_inside _ 5 (buf.read 24 4).reverse (i := 3) (by simp)

/-- The other bytes of a decoded password. -/
theorem decodeAuth_byte (buf body : Mem) {i : ℕ} (h1 : 1 ≤ i)
    (hi : i < auth_probe_password_len.get buf) (h16 : i < 16) :
    (decodeAuth buf body).body (8 + i) = buf (8 + i) := by
  simp only [decodeAuth]
  rw [Field.set_of_lt (by simp only [auth_random_ggd]; omega),
    Field.set_of_ge (by simp only [hello_random_probe]; omega)]
  exact write_read _ buf 8 8 hi

/-- Behind the password the body keeps what it held. -/
theorem decodeAuth_residue (buf body : Mem) {i : ℕ} (h1 : 1 ≤ i)
    (hi : auth_probe_password_len.get buf ≤ i) (h16 : i ≤ 16) :
    (decodeAuth buf body).body (8 + i) = body (8 + i) := by
  simp only [decodeAuth]
  rw [Field.set_of_lt (by simp only [auth_random_ggd]; omega),
    Field.set_of_ge (by simp only [hello_random_probe]; omega),
    Mem.write_of_ge _ _ (by rw [Mem.length_read]; simp only [auth_probe_password]; omega),
    Field.set_of_ge (by simp only [auth_probe_password_len]; omega),
    Field.set_of_ge (by simp only [auth_probe_id]; omega)]

theorem decodeNotice_byte (buf body : Mem) {i : ℕ} (hi : i < ntohs (notice_len.get buf)) :
    (decodeNotice buf body).body (7 + i) = buf (7 + i) := by
  simp only [decodeNotice]
  exact write_read _ buf 7 7 hi

theorem decodeNotice_residue (buf body : Mem) {i : ℕ} (hi : ntohs (notice_len.get buf) ≤ i) :
    (decodeNotice buf body).body (7 + i) = body (7 + i) := by
  simp only [decodeNotice]
  rw [Mem.write_of_ge _ _ (by rw [Mem.length_read]; simp only [notice_msg]; omega),
    Field.set_of_ge (by simp only [notice_len]; omega)]

/-! ### The static body -/

/-- A decoded packet, and the string in it. -/
theorem decode_auth {buf : Mem} (h : MsgType.ofCode (type.get buf) = some .AUTH) (g : ℕ)
    (body : Mem) : (ggpkt_mod_0_internal_decode g buf body).body =
      (decodeAuth buf (type.set body (type.get buf))).body := by
  simp only [ggpkt_mod_0_internal_decode, h]

theorem decode_notice {buf : Mem} (h : MsgType.ofCode (type.get buf) = some .NOTICE) (g : ℕ)
    (body : Mem) : (ggpkt_mod_0_internal_decode g buf body).body =
      (decodeNotice buf (type.set body (type.get buf))).body := by
  simp only [ggpkt_mod_0_internal_decode, h]

/-- The type is stored in front of the strings. -/
theorem type_set_apply (m : Mem) (x : ℕ) {i : ℤ} (h : 5 ≤ i) : type.set m x i = m i :=
  Field.set_of_ge h m x

/-- The byte of padding is never stored to. -/
theorem padding_decode {g : ℕ} (hg : g + 4 ≤ 62) {buf : Mem} (h : LenInRange buf) (body : Mem) :
    (ggpkt_mod_0_internal_decode g buf body).body 67 = body 67 := by
  have hword : ∀ f : Field, f.off + f.size ≤ 67 →
      (decodeWord f buf (type.set body (type.get buf))).body 67 = body 67 := by
    intro f hf
    simp only [decodeWord]
    rw [Field.set_of_ge hf, type_set_apply _ _ (by norm_num)]
  unfold LenInRange at h
  simp only [ggpkt_mod_0_internal_decode]
  split
  · exact hword _ (by decide)
  · exact hword _ (by decide)
  · simp only [‹MsgType.ofCode _ = _›] at h
    simp only [decodeAuth]
    rw [Field.set_of_ge (by decide), Field.set_of_ge (by decide),
      Mem.write_of_ge _ _ (by
        rw [Mem.length_read]
        simp only [auth_probe_password, GLOUGLOU_PASS_SIZE_MAX] at h ⊢
        omega),
      Field.set_of_ge (by decide), Field.set_of_ge (by decide), type_set_apply _ _ (by norm_num)]
  · exact hword _ (by simp only [auth_res_random_ggd]; omega)
  · simp only [‹MsgType.ofCode _ = _›] at h
    simp only [decodeNotice]
    rw [Mem.write_of_ge _ _ (by
        rw [Mem.length_read]
        simp only [notice_msg, GGPKT_ARG_MAX] at h ⊢
        omega),
      Field.set_of_ge (by decide), type_set_apply _ _ (by norm_num)]
  · exact hword _ (by decide)
  · exact hword _ (by decide)
  · exact type_set_apply body (type.get buf) (show (5 : ℤ) ≤ 67 by norm_num)

theorem after_snoc (g : ℕ) (history : List Mem) (buf : Mem) :
    after g (history ++ [buf]) = (ggpkt_mod_0_internal_decode g buf (after g history)).body := by
  rw [after, List.foldl_append, List.foldl_cons, List.foldl_nil, ← after]

theorem padding_after {g : ℕ} (hg : g + 4 ≤ 62) {history : List Mem}
    (h : ∀ b ∈ history, LenInRange b) : after g history 67 = 0 := by
  induction history using List.reverseRecOn with
  | nil => rfl
  | append_singleton l buf ih =>
    rw [after_snoc, padding_decode hg (h buf (by simp))]
    exact ih fun b hb => h b (List.mem_append_left _ hb)

/-- A message of sixty letters `A`. -/
def loud : Mem := fun i => if i = 4 then 0x20 else if i = 5 then 0 else if i = 6 then 60 else 65

theorem loud_type : MsgType.ofCode (type.get loud) = some .NOTICE := by decide

theorem loud_len : ntohs (notice_len.get loud) = 60 := by decide

theorem loud_inRange : LenInRange loud := by
  unfold LenInRange
  rw [loud_type, loud_len]
  exact le_rfl

/-- It fills the array of the static body. -/
theorem after_loud (g : ℕ) {i : ℤ} (h : 7 ≤ i) (h' : i < 67) : after g [loud] i = 65 := by
  obtain ⟨j, rfl⟩ : ∃ j : ℕ, i = 7 + j := ⟨(i - 7).toNat, by omega⟩
  have hj : j < ntohs (notice_len.get loud) := by
    rw [loud_len]
    omega
  rw [show [loud] = [] ++ [loud] from rfl, after_snoc, decode_notice loud_type,
    decodeNotice_byte _ _ hj]
  unfold loud
  rw [if_neg (by omega), if_neg (by omega), if_neg (by omega)]

/-! ### The theorem -/

theorem isolated_auth {g : ℕ} {buf : Mem} (h : MsgType.ofCode (type.get buf) = some .AUTH)
    (hlen : auth_probe_password_len.get buf ≤ 16) :
    Isolated g buf ↔ buf 24 = 0 ∨
      ∃ i : ℕ, 1 ≤ i ∧ i < auth_probe_password_len.get buf ∧ buf (8 + i) = 0 := by
  have htext : ∀ body, text (ggpkt_mod_0_internal_decode g buf body).body =
      view ((decodeAuth buf (type.set body (type.get buf))).body.read 8 60) := by
    intro body
    unfold text
    rw [type_decode, h, decode_auth h]
    rfl
  constructor
  · intro hiso
    by_contra hterm
    push Not at hterm
    obtain ⟨h24, hbytes⟩ := hterm
    -- the first byte of the string that the packet does not determine
    obtain ⟨k, hk1, hk16, hklen, hkmin⟩ : ∃ k : ℕ, 1 ≤ k ∧ k ≤ 16 ∧
        auth_probe_password_len.get buf ≤ k ∧
        ∀ i < k, i = 0 ∨ i < auth_probe_password_len.get buf :=
      ⟨max 1 (auth_probe_password_len.get buf), by omega, by omega, by omega, by omega⟩
    have hdet : ∀ body, ∀ i < k, (decodeAuth buf body).body (8 + i) ≠ 0 := by
      intro body i hi
      rcases Nat.eq_zero_or_pos i with rfl | hpos
      · rw [Nat.cast_zero, add_zero, decodeAuth_first]
        exact h24
      · have hi' := (hkmin i hi).resolve_left hpos.ne'
        rw [decodeAuth_byte _ _ hpos hi' (by omega)]
        exact hbytes i hpos hi'
    have hres : ∀ body, (decodeAuth buf (type.set body (type.get buf))).body (8 + k) =
        body (8 + k) := by
      intro body
      rw [decodeAuth_residue _ _ hk1 hklen hk16, type_set_apply _ _ (by omega)]
    refine view_read_ne (k := k) (by omega) (hdet _) (fun i hi => ?_) ?_
      ((htext _).symm.trans ((hiso [] [loud] (by simp) (by simp [loud_inRange])).trans (htext _)))
    · rcases hi.lt_or_eq with hi | rfl
      · exact hdet _ i hi
      · rw [hres, after_loud g (by omega) (by omega)]
        decide
    · rw [hres]
      rfl
  · intro hterm h₁ h₂ _ _
    rw [htext, htext]
    obtain ⟨k, hk16, hdet, hk0⟩ : ∃ k : ℕ, k < 16 ∧
        (∀ body body' : Mem, ∀ i ≤ k,
          (decodeAuth buf body).body (8 + i) = (decodeAuth buf body').body (8 + i)) ∧
        ∀ body : Mem, (decodeAuth buf body).body (8 + k) = 0 := by
      rcases hterm with h0 | ⟨k, hk1, hk, hk0⟩
      · refine ⟨0, by omega, fun body body' i hi => ?_, fun body => ?_⟩
        · rw [Nat.le_zero.1 hi, Nat.cast_zero, add_zero, decodeAuth_first, decodeAuth_first]
        · rw [Nat.cast_zero, add_zero, decodeAuth_first, h0]
      · refine ⟨k, by omega, fun body body' i hi => ?_, fun body => ?_⟩
        · rcases Nat.eq_zero_or_pos i with rfl | hpos
          · rw [Nat.cast_zero, add_zero, decodeAuth_first, decodeAuth_first]
          · rw [decodeAuth_byte _ _ hpos (by omega) (by omega),
              decodeAuth_byte _ _ hpos (by omega) (by omega)]
        · rw [decodeAuth_byte _ _ hk1 hk (by omega), hk0]
    exact view_read_congr (by omega) (hdet _ _) (hk0 _)

theorem isolated_notice {g : ℕ} (hg : g + 4 ≤ 62) {buf : Mem}
    (h : MsgType.ofCode (type.get buf) = some .NOTICE) (hlen : ntohs (notice_len.get buf) ≤ 60) :
    Isolated g buf ↔ ntohs (notice_len.get buf) = 60 ∨
      ∃ i : ℕ, i < ntohs (notice_len.get buf) ∧ buf (7 + i) = 0 := by
  have htext : ∀ body, text (ggpkt_mod_0_internal_decode g buf body).body =
      view ((decodeNotice buf (type.set body (type.get buf))).body.read 7 61) := by
    intro body
    unfold text
    rw [type_decode, h, decode_notice h]
    rfl
  have hres : ∀ body, ∀ k : ℕ, ntohs (notice_len.get buf) ≤ k →
      (decodeNotice buf (type.set body (type.get buf))).body (7 + k) = body (7 + k) := by
    intro body k hk
    rw [decodeNotice_residue _ _ hk, type_set_apply _ _ (by omega)]
  constructor
  · intro hiso
    by_contra hterm
    push Not at hterm
    obtain ⟨h60, hbytes⟩ := hterm
    generalize hL : ntohs (notice_len.get buf) = k at h60 hbytes hlen
    have hdet : ∀ body, ∀ i < k, (decodeNotice buf body).body (7 + i) ≠ 0 := by
      intro body i hi
      rw [decodeNotice_byte _ _ (by omega)]
      exact hbytes i hi
    refine view_read_ne (k := k) (by omega) (hdet _) (fun i hi => ?_) ?_
      ((htext _).symm.trans ((hiso [] [loud] (by simp) (by simp [loud_inRange])).trans (htext _)))
    · rcases hi.lt_or_eq with hi | rfl
      · exact hdet _ i hi
      · rw [hres _ _ hL.le, after_loud g (by omega) (by omega)]
        decide
    · rw [hres _ _ hL.le]
      rfl
  · intro hterm h₁ h₂ hh₁ hh₂
    rw [htext, htext]
    rcases hterm with h60 | ⟨k, hk, hk0⟩
    · -- the message fills its array, and the padding is zero after any packets
      have hpad : ∀ hist : List Mem, (∀ b ∈ hist, LenInRange b) →
          (decodeNotice buf (type.set (after g hist) (type.get buf))).body (7 + (60 : ℕ)) = 0 := by
        intro hist hh
        rw [hres _ _ h60.le]
        exact padding_after hg hh
      refine view_read_congr (k := 60) (by norm_num) (fun i hi => ?_) (hpad h₁ hh₁)
      rcases hi.lt_or_eq with hi | rfl
      · rw [decodeNotice_byte _ _ (by omega), decodeNotice_byte _ _ (by omega)]
      · rw [hpad h₁ hh₁, hpad h₂ hh₂]
    · refine view_read_congr (k := k) (by omega) (fun i hi => ?_) ?_
      · rw [decodeNotice_byte _ _ (by omega), decodeNotice_byte _ _ (by omega)]
      · rw [decodeNotice_byte _ _ hk, hk0]

/-- **Isolation of decoded strings.**  Whatever packets were decoded before, the string of a
packet is the same exactly if it ends within what the packet determines. -/
theorem decode_isolated_iff {g : ℕ} (hg : g + 4 ≤ 62) {bufbody : Mem} (h : LenInRange bufbody) :
    Isolated g bufbody ↔ Terminated bufbody := by
  unfold LenInRange at h
  unfold Terminated
  rcases ht : MsgType.ofCode (type.get bufbody) with _ | m
  · refine iff_true_intro fun h₁ h₂ _ _ => ?_
    simp only [text, type_decode, ht]
  · simp only [ht] at h
    cases m with
    | AUTH => exact isolated_auth ht h
    | NOTICE => exact isolated_notice hg ht h
    | _ =>
      refine iff_true_intro fun h₁ h₂ _ _ => ?_
      simp only [text, type_decode, ht]

/-- A message of one letter, sent with its terminator. -/
def polite : Mem := Mem.zeros.write 0 [0, 1, 0, 0, 0x20, 0, 2, 66, 0]

theorem decode_isolated_polite : Isolated 1 polite := by
  have htype : MsgType.ofCode (type.get polite) = some .NOTICE := by decide
  have hlen : ntohs (notice_len.get polite) = 2 := by decide
  refine (decode_isolated_iff (by norm_num) ?_).2 ?_
  · unfold LenInRange
    rw [htype, hlen]
    decide
  · unfold Terminated
    rw [htype, hlen]
    exact .inr ⟨1, by norm_num, rfl⟩

/-- A message of one letter. -/
def quiet : Mem := Mem.zeros.write 0 [0, 1, 0, 0, 0x20, 0, 1, 66, 0]

/-- After a longer message, a short one shows the rest of it. -/
theorem decode_leaks :
    ¬ Isolated 1 quiet ∧
      text (ggpkt_mod_0_internal_decode 1 quiet (after 1 [])).body = [66] ∧
      text (ggpkt_mod_0_internal_decode 1 quiet (after 1 [loud])).body =
        66 :: List.replicate 59 65 := by
  have hfirst : text (ggpkt_mod_0_internal_decode 1 quiet (after 1 [])).body = [66] := by decide
  have hlater : text (ggpkt_mod_0_internal_decode 1 quiet (after 1 [loud])).body =
      66 :: List.replicate 59 65 := by decide
  refine ⟨fun h => ?_, hfirst, hlater⟩
  have heq := h [] [loud] (by simp) (by simp [loud_inRange])
  rw [hfirst, hlater] at heq
  exact absurd heq (by decide)

end Ggpkt
