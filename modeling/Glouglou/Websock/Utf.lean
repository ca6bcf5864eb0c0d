import Glouglou.Lib.Utf8
import Glouglou.Lib.CString

/-!
# libwebsock: UTF-8

`decode` of `utf.c` and `validate_utf8_sequence` of `util.c`: a table gives the class of a byte
and, for a state and a class, the next state.  The states of the table are what the first byte
of a character says of the others (`expect`), so that from any state the machine accepts what
completes the character and is a text from there on (`Rest`), and it spells the character out
on its way (`decode_char`).
-/

open CString Utf8

namespace Libwebsock

def UTF8_ACCEPT : ℕ := 0

/-- `utf8d`: the classes of the bytes, and the next states, sixteen for a state -/
def utf8d : List ℕ :=
  [0, 0, 0, 0, 0, 0, 0, 0, 0, 0, 0, 0, 0, 0, 0, 0, 0, 0, 0, 0, 0, 0, 0, 0, 0, 0, 0, 0, 0, 0, 0, 0,
   0, 0, 0, 0, 0, 0, 0, 0, 0, 0, 0, 0, 0, 0, 0, 0, 0, 0, 0, 0, 0, 0, 0, 0, 0, 0, 0, 0, 0, 0, 0, 0,
   0, 0, 0, 0, 0, 0, 0, 0, 0, 0, 0, 0, 0, 0, 0, 0, 0, 0, 0, 0, 0, 0, 0, 0, 0, 0, 0, 0, 0, 0, 0, 0,
   0, 0, 0, 0, 0, 0, 0, 0, 0, 0, 0, 0, 0, 0, 0, 0, 0, 0, 0, 0, 0, 0, 0, 0, 0, 0, 0, 0, 0, 0, 0, 0,
   1, 1, 1, 1, 1, 1, 1, 1, 1, 1, 1, 1, 1, 1, 1, 1, 9, 9, 9, 9, 9, 9, 9, 9, 9, 9, 9, 9, 9, 9, 9, 9,
   7, 7, 7, 7, 7, 7, 7, 7, 7, 7, 7, 7, 7, 7, 7, 7, 7, 7, 7, 7, 7, 7, 7, 7, 7, 7, 7, 7, 7, 7, 7, 7,
   8, 8, 2, 2, 2, 2, 2, 2, 2, 2, 2, 2, 2, 2, 2, 2, 2, 2, 2, 2, 2, 2, 2, 2, 2, 2, 2, 2, 2, 2, 2, 2,
   10, 3, 3, 3, 3, 3, 3, 3, 3, 3, 3, 3, 3, 4, 3, 3,
   11, 6, 6, 6, 5, 8, 8, 8, 8, 8, 8, 8, 8, 8, 8, 8,
   0, 1, 2, 3, 5, 8, 7, 1, 1, 1, 4, 6, 1, 1, 1, 1,
   1, 1, 1, 1, 1, 1, 1, 1, 1, 1, 1, 1, 1, 1, 1, 1, 1, 0, 1, 1, 1, 1, 1, 0, 1, 0, 1, 1, 1, 1, 1, 1,
   1, 2, 1, 1, 1, 1, 1, 2, 1, 2, 1, 1, 1, 1, 1, 1, 1, 1, 1, 1, 1, 1, 1, 2, 1, 1, 1, 1, 1, 1, 1, 1,
   1, 2, 1, 1, 1, 1, 1, 1, 1, 2, 1, 1, 1, 1, 1, 1, 1, 1, 1, 1, 1, 1, 1, 3, 1, 3, 1, 1, 1, 1, 1, 1,
   1, 3, 1, 1, 1, 1, 1, 3, 1, 3, 1, 1, 1, 1, 1, 1, 1, 3, 1, 1, 1, 1, 1, 1, 1, 1, 1, 1, 1, 1, 1, 1]

/-- `decode`: what it leaves in `*state` and in `*codep`. -/
def decode (state codep byte : ℕ) : ℕ × ℕ :=
  let type := utf8d.getD byte 0
  (utf8d.getD (256 + state * 16 + type) 0,
    if state ≠ UTF8_ACCEPT then (byte &&& 0x3f) ||| ((codep <<< 6) % 2 ^ 32)
    else (0xff >>> type) &&& byte)

/-- The loop of `validate_utf8_sequence`, which ends at the terminator. -/
def validateLoop (state codepoint : ℕ) : List UInt8 → ℕ × ℕ
  | [] => (state, codepoint)
  | c :: s =>
    if c = 0 then (state, codepoint)
    else
      let r := decode state codepoint c.toNat
      validateLoop r.1 r.2 s

/-- `validate_utf8_sequence`, with its variable `codepoint` as it was. -/
def validate_utf8_sequence (s : List UInt8) (codepoint : ℕ) : Bool :=
  (validateLoop 0 codepoint s).1 = UTF8_ACCEPT

/-! ### The table -/

/-- The class of a byte. -/
def cls (b : UInt8) : ℕ := utf8d.getD b.toNat 0

/-- The next state. -/
def next (state : ℕ) (b : UInt8) : ℕ := utf8d.getD (256 + state * 16 + cls b) 0

/-- What a state inside a character waits for. -/
def expect : ℕ → Option Lead
  | 2 => some ⟨0x80, 0xBF, 0⟩
  | 3 => some ⟨0x80, 0xBF, 1⟩
  | 4 => some ⟨0xA0, 0xBF, 1⟩
  | 5 => some ⟨0x80, 0x9F, 1⟩
  | 6 => some ⟨0x90, 0xBF, 2⟩
  | 7 => some ⟨0x80, 0xBF, 2⟩
  | 8 => some ⟨0x80, 0x8F, 2⟩
  | _ => none

/-- The state that waits for this many continuation bytes. -/
def after : ℕ → ℕ
  | 0 => 0
  | 1 => 2
  | _ => 3

theorem forall_byte {p : UInt8 → Prop} (h : ∀ i < 256, p (UInt8.ofNat i)) (b : UInt8) : p b := by
  have hb := h b.toNat b.toNat_lt
  rwa [UInt8.ofNat_toNat] at hb

/-- The classes, and the states that the classes lead to from the first. -/
theorem cls_spec (b : UInt8) :
    (cls b < 12 ∧ (cls b = 1 ↔ 0x80 ≤ b.toNat ∧ b.toNat ≤ 0x8F) ∧
      (cls b = 9 ↔ 0x90 ≤ b.toNat ∧ b.toNat ≤ 0x9F) ∧
      (cls b = 7 ↔ 0xA0 ≤ b.toNat ∧ b.toNat ≤ 0xBF)) ∧
    if b.toNat < 0x80 then cls b = 0 ∧ (0xff >>> cls b) &&& b.toNat = b.toNat
    else expect (utf8d.getD (256 + cls b) 0) = lead b ∧
      (lead b = none → utf8d.getD (256 + cls b) 0 = 1) ∧
      (lead b ≠ none → (0xff >>> cls b) &&& b.toNat = payload b) := by
  revert b
  apply forall_byte
  decide +kernel

theorem next_reject (b : UInt8) : next 1 b = 1 := by
  have htable : ∀ t < 12, utf8d.getD (256 + 1 * 16 + t) 0 = 1 := by decide +kernel
  exact htable _ (cls_spec b).1.1

theorem expect_bounds {state : ℕ} {e : Lead} (h : expect state = some e) :
    state < 9 ∧ (e.lo = 0x80 ∨ e.lo = 0x90 ∨ e.lo = 0xA0) ∧
      (e.hi = 0x8F ∨ e.hi = 0x9F ∨ e.hi = 0xBF) ∧ (e.hi < 0xBF → e.lo = 0x80) ∧ e.more < 3 := by
  unfold expect at h
  split at h <;> cases h <;> decide

/-- A state inside a character goes on with a byte of its range. -/
theorem next_expect {state : ℕ} {e : Lead} (h : expect state = some e) (b : UInt8) :
    next state b = if e.lo ≤ b.toNat ∧ b.toNat ≤ e.hi then after e.more else 1 := by
  have htable : ∀ q < 9, ∀ t < 12, ∀ e ∈ expect q, utf8d.getD (256 + q * 16 + t) 0 =
      if (t = 1 ∧ e.lo = 0x80) ∨ (t = 9 ∧ e.lo ≤ 0x90 ∧ 0x9F ≤ e.hi) ∨ (t = 7 ∧ e.hi = 0xBF) then
        after e.more else 1 := by
    decide +kernel
  obtain ⟨hlt, hlo, hhi, hlohi, -⟩ := expect_bounds h
  obtain ⟨⟨hcls, h1, h9, h7⟩, -⟩ := cls_spec b
  rw [next, htable state hlt (cls b) hcls e h]
  apply if_congr _ rfl rfl
  rw [h1, h9, h7]
  omega

/-- From the first state a byte is a character, or begins one, or is refused. -/
theorem next_accept (b : UInt8) :
    (b.toNat < 0x80 ∧ next 0 b = 0) ∨ (0x80 ≤ b.toNat ∧ expect (next 0 b) = lead b ∧
      (lead b = none → next 0 b = 1)) := by
  have hspec := (cls_spec b).2
  have hnext : next 0 b = utf8d.getD (256 + cls b) 0 := rfl
  by_cases hb : b.toNat < 0x80
  · rw [if_pos hb] at hspec
    refine .inl ⟨hb, ?_⟩
    rw [hnext, hspec.1]
    rfl
  · rw [if_neg hb] at hspec
    exact .inr ⟨not_lt.1 hb, hspec.1, hspec.2.1⟩

/-! ### What is accepted from a state -/

/-- What completes the character that a state is in, and is a text from there on. -/
def Rest (state : ℕ) (l : List UInt8) : Prop :=
  if state = 0 then Text l
  else ∃ e ∈ expect state, ∃ b t r, l = b :: (t ++ r) ∧ e.lo ≤ b.toNat ∧ b.toNat ≤ e.hi ∧
    t.length = e.more ∧ (∀ c ∈ t, Tail c) ∧ Text r

theorem rest_reject (l : List UInt8) : ¬ Rest 1 l := by
  rw [Rest, if_neg (by decide)]
  rintro ⟨e, he, -⟩
  exact absurd he (by simp [expect])

theorem rest_of_expect {state : ℕ} {e : Lead} (h : expect state = some e) (l : List UInt8) :
    Rest state l ↔ ∃ b t r, l = b :: (t ++ r) ∧ e.lo ≤ b.toNat ∧ b.toNat ≤ e.hi ∧
      t.length = e.more ∧ (∀ c ∈ t, Tail c) ∧ Text r := by
  have hne : state ≠ 0 := by
    rintro rfl
    cases h
  rw [Rest, if_neg hne, h]
  constructor
  · rintro ⟨e', he', hrest⟩
    cases he'
    exact hrest
  · exact fun hrest => ⟨e, rfl, hrest⟩

theorem expect_after {n : ℕ} (hn : n + 1 < 3) : expect (after (n + 1)) = some ⟨0x80, 0xBF, n⟩ := by
  have hn : n < 2 := Nat.lt_of_succ_lt_succ hn
  interval_cases n <;> rfl

/-- What is accepted after the bytes of a character that are still missing. -/
theorem rest_after {n : ℕ} (hn : n < 3) (l : List UInt8) :
    Rest (after n) l ↔ ∃ t r, l = t ++ r ∧ t.length = n ∧ (∀ c ∈ t, Tail c) ∧ Text r := by
  rcases n with _ | n
  · rw [Rest, if_pos (show after 0 = 0 from rfl)]
    constructor
    · exact fun h => ⟨[], l, rfl, rfl, by simp, h⟩
    · rintro ⟨t, r, rfl, ht, -, hr⟩
      rw [List.length_eq_zero_iff.1 ht]
      exact hr
  · rw [rest_of_expect (expect_after hn)]
    constructor
    · rintro ⟨b, t, r, rfl, hlo, hhi, ht, htail, hr⟩
      refine ⟨b :: t, r, rfl, by rw [List.length_cons, ht], ?_, hr⟩
      intro c hc
      rcases List.mem_cons.1 hc with rfl | hc
      · exact ⟨hlo, hhi⟩
      · exact htail c hc
    · rintro ⟨_ | ⟨b, t⟩, r, rfl, ht, htail, hr⟩
      · cases ht
      · obtain ⟨hlo, hhi⟩ := htail b List.mem_cons_self
        exact ⟨b, t, r, rfl, hlo, hhi, Nat.succ.inj ht,
          fun c hc => htail c (List.mem_cons_of_mem _ hc), hr⟩

/-- One byte. -/
theorem rest_cons {state : ℕ} (h : state = 0 ∨ state = 1 ∨ (expect state).isSome) (b : UInt8)
    (l : List UInt8) : Rest state (b :: l) ↔ Rest (next state b) l := by
  rcases h with rfl | rfl | h
  · rw [Rest, if_pos rfl]
    rcases next_accept b with ⟨hb, hnext⟩ | ⟨hb, hexp, hrej⟩
    · rw [hnext, Rest, if_pos rfl]
      constructor
      · intro ht
        rcases ht.cases with h | ⟨w, t, heq, hw, hr⟩
        · cases h
        · rcases w with _ | ⟨a, _ | ⟨c, w⟩⟩
          · exact hw.elim
          · cases heq
            exact hr
          · cases heq
            obtain ⟨e, he, -⟩ := hw
            rw [lead, if_pos (by omega)] at he
            cases he
      · exact fun ht => text_append (w := [b]) hb ht
    · rcases hlead : lead b with _ | e
      · rw [hrej hlead]
        apply iff_of_false _ (rest_reject l)
        intro ht
        rcases ht.cases with h | ⟨w, t, heq, hw, -⟩
        · cases h
        · rcases w with _ | ⟨a, _ | ⟨c, w⟩⟩
          · exact hw.elim
          · cases heq
            exact absurd hw (not_lt.2 hb)
          · cases heq
            obtain ⟨e, he, -⟩ := hw
            rw [hlead] at he
            cases he
      · rw [rest_of_expect (hexp.trans hlead)]
        constructor
        · intro ht
          rcases ht.cases with h | ⟨w, t, heq, hw, hr⟩
          · cases h
          · rcases w with _ | ⟨a, _ | ⟨c, w⟩⟩
            · exact hw.elim
            · cases heq
              exact absurd hw (not_lt.2 hb)
            · cases heq
              obtain ⟨e', he', hlo, hhi, hlen, htail⟩ := hw
              cases hlead.symm.trans he'
              exact ⟨c, w, t, rfl, hlo, hhi, hlen, htail, hr⟩
        · rintro ⟨c, t, r, rfl, hlo, hhi, hlen, htail, hr⟩
          exact text_append (w := b :: c :: t) ⟨e, hlead, hlo, hhi, hlen, htail⟩ hr
  · rw [next_reject]
    exact iff_of_false (rest_reject _) (rest_reject _)
  · obtain ⟨e, he⟩ := Option.isSome_iff_exists.1 h
    rw [rest_of_expect he, next_expect he]
    by_cases hb : e.lo ≤ b.toNat ∧ b.toNat ≤ e.hi
    · rw [if_pos hb, rest_after (expect_bounds he).2.2.2.2]
      constructor
      · rintro ⟨c, t, r, heq, -, -, hrest⟩
        cases heq
        exact ⟨t, r, rfl, hrest⟩
      · rintro ⟨t, r, rfl, hrest⟩
        exact ⟨b, t, r, rfl, hb.1, hb.2, hrest⟩
    · rw [if_neg hb]
      apply iff_of_false _ (rest_reject l)
      rintro ⟨c, t, r, heq, hlo, hhi, -⟩
      cases heq
      exact hb ⟨hlo, hhi⟩

/-- The states that the machine reaches. -/
def Reached (state : ℕ) : Prop := state = 0 ∨ state = 1 ∨ (expect state).isSome

theorem reached_next {state : ℕ} (h : Reached state) (b : UInt8) : Reached (next state b) := by
  rcases h with rfl | rfl | h
  · rcases next_accept b with ⟨-, hnext⟩ | ⟨-, hexp, hrej⟩
    · exact .inl hnext
    · rcases hlead : lead b with _ | e
      · exact .inr (.inl (hrej hlead))
      · refine .inr (.inr ?_)
        rw [hexp, hlead]
        rfl
  · exact .inr (.inl (next_reject b))
  · obtain ⟨e, he⟩ := Option.isSome_iff_exists.1 h
    rw [next_expect he]
    have hmore := (expect_bounds he).2.2.2.2
    split_ifs with hb
    · rcases hm : e.more with _ | n
      · exact .inl rfl
      · refine .inr (.inr ?_)
        rw [expect_after (hm ▸ hmore)]
        rfl
    · exact .inr (.inl rfl)

/-- From a state of the machine the accepted bytes are those of `Rest`. -/
theorem foldl_next_iff {state : ℕ} (h : Reached state) (l : List UInt8) :
    l.foldl next state = 0 ↔ Rest state l := by
  induction l generalizing state with
  | nil =>
    rw [List.foldl_nil]
    constructor
    · rintro rfl
      exact text_nil
    · intro hrest
      by_contra hne
      rw [Rest, if_neg hne] at hrest
      obtain ⟨e, -, b, t, r, heq, -⟩ := hrest
      cases heq
  | cons b l ih =>
    rw [List.foldl_cons, ih (reached_next h b)]
    exact (rest_cons h b l).symm

/-! ### What is spelled out -/

/-- `decode` on byte after byte. -/
def decodeAll (p : ℕ × ℕ) (l : List UInt8) : ℕ × ℕ := l.foldl (fun p b => decode p.1 p.2 b.toNat) p

theorem validateLoop_eq (state codepoint : ℕ) (s : List UInt8) :
    validateLoop state codepoint s = decodeAll (state, codepoint) (view s) := by
  induction s generalizing state codepoint with
  | nil => rfl
  | cons c s ih =>
    rw [validateLoop]
    by_cases hc : c = 0
    · rw [if_pos hc, view, List.takeWhile_cons_of_neg (by simpa using hc)]
      rfl
    · rw [if_neg hc, view, List.takeWhile_cons_of_pos (by simpa using hc)]
      exact ih _ _

theorem decodeAll_fst (p : ℕ × ℕ) (l : List UInt8) : (decodeAll p l).1 = l.foldl next p.1 := by
  induction l generalizing p with
  | nil => rfl
  | cons b l ih => exact ih _

theorem decodeAll_cons (p : ℕ × ℕ) (b : UInt8) (l : List UInt8) :
    decodeAll p (b :: l) = decodeAll (decode p.1 p.2 b.toNat) l := rfl

theorem decodeAll_append (p : ℕ × ℕ) (l l' : List UInt8) :
    decodeAll p (l ++ l') = decodeAll (decodeAll p l) l' := List.foldl_append

/-- A continuation byte brings six bits. -/
theorem decode_tail {state : ℕ} (h : state ≠ 0) {b : UInt8} (hb : Tail b) {v : ℕ}
    (hv : v < 2 ^ 26) : (decode state v b.toNat).2 = shift v b := by
  obtain ⟨h80, hBF⟩ := hb
  have hand : b.toNat &&& 0x3f = b.toNat - 0x80 := by
    rw [show 0x3f = 2 ^ 6 - 1 by norm_num, Nat.and_two_pow_sub_one_eq_mod]
    omega
  have hshift : v <<< 6 % 2 ^ 32 = v <<< 6 := by
    rw [Nat.shiftLeft_eq]
    exact Nat.mod_eq_of_lt (by omega)
  unfold decode UTF8_ACCEPT
  simp only [if_pos h]
  rw [hand, hshift, Nat.or_comm,
    ← Nat.shiftLeft_add_eq_or_of_lt (show b.toNat - 0x80 < 2 ^ 6 by omega), Nat.shiftLeft_eq]
  rfl

theorem decodeAll_tails {n : ℕ} (hn : n < 3) {t : List UInt8} (hlen : t.length = n)
    (ht : ∀ c ∈ t, Tail c) {v : ℕ} (hv : (v + 1) * 64 ^ n ≤ 2 ^ 26) :
    decodeAll (after n, v) t = (0, t.foldl shift v) := by
  induction t generalizing n v with
  | nil =>
    rw [← hlen]
    rfl
  | cons c t ih =>
    rcases n with _ | n
    · cases hlen
    obtain ⟨hlo, hhi⟩ := ht c List.mem_cons_self
    have hne : after (n + 1) ≠ 0 := by
      intro h0
      have he := expect_after hn
      rw [h0] at he
      cases he
    have hpow : v + 1 ≤ (v + 1) * 64 ^ n := Nat.le_mul_of_pos_right _ (by positivity)
    have hv' : (v + 1) * 64 ^ n * 64 ≤ 2 ^ 26 := by
      rw [mul_assoc, ← pow_succ]
      exact hv
    have hstate : (decode (after (n + 1)) v c.toNat).1 = after n := by
      show next (after (n + 1)) c = _
      rw [next_expect (expect_after hn), if_pos ⟨hlo, hhi⟩]
    have hshift : (shift v c + 1) * 64 ^ n ≤ 2 ^ 26 := by
      have hle : shift v c + 1 ≤ (v + 1) * 64 := by
        unfold shift
        omega
      calc (shift v c + 1) * 64 ^ n ≤ (v + 1) * 64 * 64 ^ n := Nat.mul_le_mul_right _ hle
        _ = (v + 1) * 64 ^ n * 64 := by ring
        _ ≤ 2 ^ 26 := hv'
    have hrest := ih (by omega) (Nat.succ.inj hlen) (fun d hd => ht d (List.mem_cons_of_mem _ hd))
      hshift
    have hstep : decode (after (n + 1)) v c.toNat = (after n, shift v c) :=
      Prod.ext hstate (decode_tail hne ⟨hlo, hhi⟩ (by omega))
    rw [decodeAll_cons, hstep, hrest, List.foldl_cons]

/-- The bytes of a character take the machine back to its first state, with its value spelled
out. -/
theorem decodeAll_wellFormed (v : ℕ) {w : List UInt8} (hw : WellFormed w) :
    decodeAll (0, v) w = (0, point w) := by
  rcases w with _ | ⟨a, _ | ⟨b, t⟩⟩
  · exact hw.elim
  · have ha : a.toNat < 0x80 := hw
    have hspec := (cls_spec a).2
    rw [if_pos ha] at hspec
    have hnext : next 0 a = 0 := by
      show utf8d.getD (256 + cls a) 0 = 0
      rw [hspec.1]
      rfl
    refine Prod.ext hnext ?_
    show (0xff >>> cls a) &&& a.toNat = _
    rw [hspec.2, point, List.foldl_nil, payload, if_pos ha]
  · obtain ⟨e, he, hlo, hhi, hlen, htail⟩ := hw
    have he : lead a = some e := he
    obtain ⟨h80, hBF, hbounds⟩ := lead_bounds he
    have ha : ¬ a.toNat < 0x80 := by omega
    have hspec := (cls_spec a).2
    rw [if_neg ha] at hspec
    have hexp : expect (next 0 a) = some e := hspec.1.trans he
    have hmore := (expect_bounds hexp).2.2.2.2
    have hne : next 0 a ≠ 0 := by
      intro h0
      rw [h0] at hexp
      cases hexp
    have hpay : (decode 0 v a.toNat).2 = payload a := by
      refine hspec.2.2 ?_
      rw [he]
      exact Option.some_ne_none e
    have hlt : (payload a + 1) * 64 * 64 ^ e.more ≤ 2 ^ 26 := by
      unfold payload
      obtain ⟨hm, ha, ha'⟩ | ⟨hm, ha, ha', -⟩ | ⟨hm, ha, ha', -⟩ := hbounds
      · rw [hm, if_neg (by omega), if_pos (by omega)]
        omega
      · rw [hm, if_neg (by omega), if_neg (by omega), if_pos (by omega)]
        omega
      · rw [hm, if_neg (by omega), if_neg (by omega), if_neg (by omega)]
        omega
    have hle : payload a + 1 ≤ (payload a + 1) * 64 * 64 ^ e.more := by
      rw [mul_assoc]
      exact Nat.le_mul_of_pos_right _ (by positivity)
    have hb : Tail b := ⟨h80.trans hlo, hhi.trans hBF⟩
    have hstate : (decode (next 0 a) (payload a) b.toNat).1 = after e.more := by
      show next (next 0 a) b = _
      rw [next_expect hexp, if_pos ⟨hlo, hhi⟩]
    have hfirst : decode 0 v a.toNat = (next 0 a, payload a) := Prod.ext rfl hpay
    have hsecond : decode (next 0 a) (payload a) b.toNat = (after e.more, shift (payload a) b) :=
      Prod.ext hstate (decode_tail hne hb (by omega))
    have hshift : (shift (payload a) b + 1) * 64 ^ e.more ≤ 2 ^ 26 := by
      refine le_trans (Nat.mul_le_mul_right _ ?_) hlt
      unfold shift
      unfold Tail at hb
      omega
    rw [decodeAll_cons, hfirst, decodeAll_cons, hsecond, decodeAll_tails hmore hlen htail hshift,
      point, List.foldl_cons]

theorem decode_char (v : ℕ) (c : Char) :
    decodeAll (0, v) (String.utf8EncodeChar c) = (0, c.val.toNat) := by
  rw [decodeAll_wellFormed v (wellFormed_encode c), point_encode]

theorem decodeAll_chars (v : ℕ) (cs : List Char) (c : Char) :
    decodeAll (0, v) ((cs ++ [c]).flatMap String.utf8EncodeChar) = (0, c.val.toNat) := by
  induction cs generalizing v with
  | nil =>
    rw [List.nil_append, List.flatMap_singleton]
    exact decode_char v c
  | cons d cs ih =>
    rw [List.cons_append, List.flatMap_cons, decodeAll_append, decode_char]
    exact ih _

/-- **The validator.**  `validate_utf8_sequence` accepts the C strings that are encodings of
characters; and at the end of a character, wherever in the string that is, it is in its first
state with the character in its variable. -/
theorem validate_utf8 (s : List UInt8) (codepoint : ℕ) :
    (validate_utf8_sequence s codepoint = true ↔
      ∃ cs : List Char, view s = cs.flatMap String.utf8EncodeChar) ∧
    ∀ cs c rest, view s = (cs ++ [c]).flatMap String.utf8EncodeChar ++ rest →
      validateLoop 0 codepoint s = decodeAll (0, c.val.toNat) rest := by
  constructor
  · rw [validate_utf8_sequence, decide_eq_true_iff, validateLoop_eq, decodeAll_fst]
    exact (foldl_next_iff (.inl rfl) _).trans (by rw [Rest, if_pos rfl, Text])
  · intro cs c rest h
    rw [validateLoop_eq, h, decodeAll_append, decodeAll_chars]

end Libwebsock
