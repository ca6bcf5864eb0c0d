import Glouglou.Sendbuf.Steps

/-!
# libsendbuf: when the room check overflows

`buffer_pos + size` is an `int` sum.  A token no larger than the buffer can push it past
`INT_MAX`; it then wraps to a negative number, the check takes it for room enough, and the
token is stored past the end of the buffer (`store_of_overflow`).

No room check of a buffer smaller than `2 ^ 30` bytes overflows (`safe_of_small`), and every
larger one has the two-token run `overflow_run`.
-/

open CInt Transducer

namespace Libsendbuf

theorem makeRoom_of_overflow {s : Sendbuf} (hi : Inv s) (f : SendFunc) {size : ℤ}
    (hsize : size ≤ s.buffer_size) (h : ¬ s.buffer_pos + size ≤ INT_MAX) :
    makeRoom f s size = (true, s, []) := by
  have h1 := hi.pos_le
  have h2 := hi.size_pos
  have h3 := hi.size_le
  have hwrap : int32 (s.buffer_pos + size) = s.buffer_pos + size - 2 ^ 32 :=
    int32_of_overflow (by omega) (by unfold INT_MAX at h3; omega)
  unfold makeRoom
  rw [hwrap, if_neg]
  -- the wrapped sum is negative, hence below every buffer size
  unfold INT_MAX at h3
  omega

/-- When the room check overflows, the token is stored past the end of the buffer. -/
theorem store_of_overflow {s t : Sendbuf} {op : Op} {out : List Ev} (hi : Inv s)
    (h : Step s op out t) (hno : ¬ RoomFits s op) :
    ∃ size, Ev.store s.buffer_pos size ∈ out ∧
      ¬ Mem.InBounds s.buffer_size s.buffer_pos size := by
  obtain ⟨hsize, hexec, -⟩ := h
  have hp := hi.pos_le
  have hs := hi.size_le
  unfold RoomFits at hno
  rcases op.token_or_flush with ⟨f, token, hlen, hop⟩ | ⟨hzero, -⟩
  · rw [hlen] at hsize hno
    rw [hop, exec_append_taken (makeRoom_of_overflow hi f hsize hno), Prod.mk.injEq] at hexec
    obtain ⟨-, rfl⟩ := hexec
    refine ⟨token.length, by simp, ?_⟩
    intro hb
    have := hb.2
    omega
  · -- without a token the sum is the cursor, which is inside the buffer
    omega

/-- A buffer smaller than `2 ^ 30` bytes has room for two tokens in an `int`. -/
theorem safe_of_small {s t : Sendbuf} {ops : List Op} {es : List Ev} (h : Run Step s ops es t)
    (hi : Inv s) (hsmall : s.buffer_size < 2 ^ 30) : Run SafeStep s ops es t := by
  induction h with
  | nil => exact .nil
  | @snoc ops es u op out v _ hs ih =>
    refine ih.snoc ⟨hs, ?_⟩
    obtain ⟨hu, hb⟩ := run_inv ih hi
    have h1 := hu.pos_le
    have h2 := hs.1
    unfold RoomFits INT_MAX
    omega

/-! ### The run that overflows -/

/-- A token as large as the buffer. -/
def bigToken (buffer_size : ℤ) : List UInt8 := List.replicate buffer_size.toNat 0

/-- Two tokens as large as the buffer, over a transport that takes nothing. -/
def overflowOps (buffer_size : ℤ) : List Op :=
  [.append blocked (bigToken buffer_size), .append blocked (bigToken buffer_size)]

/-- The effects of `overflowOps`: the second store starts at the end of the buffer. -/
def overflowEvs (buffer_size : ℤ) : List Ev :=
  [.store 0 buffer_size, .accept (bigToken buffer_size),
    .store buffer_size buffer_size, .accept (bigToken buffer_size)]

theorem length_bigToken {buffer_size : ℤ} (h : 0 ≤ buffer_size) :
    ((bigToken buffer_size).length : ℤ) = buffer_size := by
  rw [bigToken, List.length_replicate]
  omega

/-- An empty buffer takes a token no larger than itself without calling `send_func`. -/
theorem exec_append_empty {s : Sendbuf} (hi : Inv s) (h0 : s.buffer_pos = 0) (f : SendFunc)
    {token : List UInt8} (hsize : token.length ≤ s.buffer_size) :
    exec s (.append f token) =
      (put s token, [.store s.buffer_pos token.length, .accept token]) := by
  have hroom : makeRoom f s token.length = (true, s, []) := by
    simp [makeRoom, sendbuf_flush, h0]
  rw [exec_append_taken hroom, hi.cursor_of_fit (by omega), List.nil_append, put]

/-- The first token of a run is only stored. -/
theorem run_first (buffer : Mem) (msec_max : ℤ) {buffer_size : ℤ} (h : 1 ≤ buffer_size)
    (h' : buffer_size ≤ INT_MAX) (f : SendFunc) {token : List UInt8}
    (hsize : token.length ≤ buffer_size) :
    Run SafeStep (start buffer buffer_size msec_max) [.append f token]
      [.store 0 token.length, .accept token] (put (start buffer buffer_size msec_max) token) := by
  have hexec := exec_append_empty (inv_start buffer msec_max h h') rfl f hsize
  refine Run.single ⟨⟨hsize, hexec, by simp [Ev.Answered]⟩, ?_⟩
  show (0 : ℤ) + token.length ≤ INT_MAX
  omega

/-- From `2 ^ 30` bytes on both tokens are accepted, and the cursor ends up negative. -/
theorem overflow_run (buffer : Mem) (msec_max : ℤ) {buffer_size : ℤ} (h : 2 ^ 30 ≤ buffer_size)
    (h' : buffer_size ≤ INT_MAX) :
    ∃ t, Run Step (start buffer buffer_size msec_max) (overflowOps buffer_size)
        (overflowEvs buffer_size) t ∧
      t.buffer_size = buffer_size ∧ t.flushing_pos = 0 ∧
      t.buffer_pos = 2 * buffer_size - 2 ^ 32 := by
  have hlen := length_bigToken (show 0 ≤ buffer_size by omega)
  have hi := inv_start buffer msec_max (show 1 ≤ buffer_size by omega) h'
  set s := start buffer buffer_size msec_max
  set u := put s (bigToken buffer_size) with hu
  have hpos : u.buffer_pos = buffer_size := by
    show (0 : ℤ) + (bigToken buffer_size).length = buffer_size
    omega
  have hfirst := (run_first buffer msec_max (show 1 ≤ buffer_size by omega) h' blocked
    hlen.le).mono fun _ _ _ _ hstep => hstep.1
  rw [hlen] at hfirst
  have hiu : Inv u := inv_put hi (by rw [hlen]; show (0 : ℤ) + buffer_size ≤ buffer_size; omega)
  -- the sum in the second room check is `2 * buffer_size`, past `INT_MAX`
  have hover : ¬ u.buffer_pos + (bigToken buffer_size).length ≤ INT_MAX := by
    unfold INT_MAX
    omega
  have hwrap : int32 (u.buffer_pos + (bigToken buffer_size).length) =
      2 * buffer_size - 2 ^ 32 := by
    rw [int32_of_overflow (by omega) (by unfold INT_MAX at h'; omega)]
    omega
  have h2 := exec_append_taken (makeRoom_of_overflow hiu blocked hlen.le hover)
  rw [hwrap, hpos, hlen, List.nil_append] at h2
  have step2 : Step u (.append blocked (bigToken buffer_size))
      [.store buffer_size buffer_size, .accept (bigToken buffer_size)] _ :=
    ⟨hlen.le, h2, by simp [Ev.Answered]⟩
  exact ⟨_, hfirst.snoc step2, rfl, rfl, rfl⟩

/-- The flush after the overflow offers a negative number of bytes. -/
theorem flush_overflow {t : Sendbuf} {buffer_size : ℤ} (h : 2 ^ 30 ≤ buffer_size)
    (h' : buffer_size ≤ INT_MAX) (hf : t.flushing_pos = 0)
    (hp : t.buffer_pos = 2 * buffer_size - 2 ^ 32) :
    sendbuf_flush blocked t = (-1, { t with flushing := 1 },
      [.send 0 (2 * buffer_size - 2 ^ 32) [] (-1)]) := by
  unfold INT_MAX at h'
  have hne : t.buffer_pos ≠ 0 := by omega
  have hto : int32 (t.buffer_pos - t.flushing_pos) = 2 * buffer_size - 2 ^ 32 := by
    rw [int32_of_mem (by omega) (by unfold INT_MAX; omega)]
    omega
  have hnat : (2 * buffer_size - 2 ^ 32).toNat = 0 := by omega
  unfold sendbuf_flush
  rw [if_neg hne, hto]
  dsimp only
  rw [hnat, hf]
  rfl

end Libsendbuf
