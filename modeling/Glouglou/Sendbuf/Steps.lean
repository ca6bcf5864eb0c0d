import Glouglou.Sendbuf.Callback
import Glouglou.Lib.Fifo

/-!
# libsendbuf: what an operation can do

`Inv` relates the three cursors of a live buffer: what is between `flushing_pos` and
`buffer_pos` is pending, and a buffer with nothing pending has both at `0`.

`Flushed` lists the ways `sendbuf_flush` can end, `step_cases` those of a whole operation:
at most one flush, then at most one token stored behind the pending bytes.  Everything proved
of runs comes from these two; `step_inv` and `run_inv` are the invariant.
-/

open CInt Transducer

namespace Libsendbuf

/-- What a live buffer looks like between two operations. -/
structure Inv (s : Sendbuf) : Prop where
  size_pos : 1 ≤ s.buffer_size
  size_le : s.buffer_size ≤ INT_MAX
  flushing_nonneg : 0 ≤ s.flushing_pos
  cursors : s.flushing_pos < s.buffer_pos ∨ (s.flushing_pos = 0 ∧ s.buffer_pos = 0)
  pos_le : s.buffer_pos ≤ s.buffer_size

/-- The bytes taken in and not yet taken by `send_func`: `buffer[flushing_pos .. buffer_pos)`. -/
def pending (s : Sendbuf) : List UInt8 :=
  s.buffer.read s.flushing_pos (s.buffer_pos - s.flushing_pos).toNat

/-- The buffer with a token stored behind what is pending. -/
def put (s : Sendbuf) (token : List UInt8) : Sendbuf :=
  { s with
    buffer := s.buffer.write s.buffer_pos token
    buffer_pos := s.buffer_pos + token.length }

theorem inv_start (buffer : Mem) (msec_max : ℤ) {buffer_size : ℤ} (h : 1 ≤ buffer_size)
    (h' : buffer_size ≤ INT_MAX) : Inv (start buffer buffer_size msec_max) where
  size_pos := h
  size_le := h'
  flushing_nonneg := le_rfl
  cursors := Or.inr ⟨rfl, rfl⟩
  pos_le := by
    show (0 : ℤ) ≤ buffer_size
    omega

theorem Inv.pos_nonneg {s : Sendbuf} (hi : Inv s) : 0 ≤ s.buffer_pos := by
  have := hi.flushing_nonneg
  rcases hi.cursors with h | h <;> omega

/-- The cursor behind a token that fits does not wrap. -/
theorem Inv.cursor_of_fit {s : Sendbuf} (hi : Inv s) {token : List UInt8}
    (h : s.buffer_pos + token.length ≤ s.buffer_size) :
    int32 (s.buffer_pos + token.length) = s.buffer_pos + token.length := by
  have h1 := hi.pos_nonneg
  have h2 := hi.size_le
  exact int32_of_mem (by omega) (by omega)

theorem length_pending {s : Sendbuf} (hi : Inv s) :
    ((pending s).length : ℤ) = s.buffer_pos - s.flushing_pos := by
  have := hi.cursors
  rw [pending, Mem.length_read]
  omega

/-! ### Flushing -/

/-- How `sendbuf_flush` can end: nothing to send, the transport failed, took a part, or took
everything.  Indices: the result, the structure and the effects. -/
inductive Flushed (s : Sendbuf) : ℤ → Sendbuf → List Ev → Prop
  | empty (h : s.buffer_pos = 0) : Flushed s 0 s []
  | failed (h : s.flushing_pos < s.buffer_pos) :
      Flushed s (-1) { s with flushing := 1 }
        [.send s.flushing_pos (s.buffer_pos - s.flushing_pos) (pending s) (-1)]
  | part (h : s.flushing_pos < s.buffer_pos) (sent : ℤ) (h₀ : 0 ≤ sent)
      (hlt : sent < s.buffer_pos - s.flushing_pos) :
      Flushed s (-1) { s with flushing := 1, flushing_pos := s.flushing_pos + sent }
        [.send s.flushing_pos (s.buffer_pos - s.flushing_pos) (pending s) sent]
  | whole (h : s.flushing_pos < s.buffer_pos) :
      Flushed s 0 { s with buffer_pos := 0, flushing := 0, flushing_pos := 0 }
        [.send s.flushing_pos (s.buffer_pos - s.flushing_pos) (pending s)
          (s.buffer_pos - s.flushing_pos)]

/-- `sendbuf_flush` ends in one of these ways when the transport keeps to its contract. -/
theorem flushed {s t : Sendbuf} (hi : Inv s) {f : SendFunc} {r : ℤ} {ev : List Ev}
    (h : sendbuf_flush f s = (r, t, ev)) (ha : ∀ e ∈ ev, e.Answered) : Flushed s r t ev := by
  have hf := hi.flushing_nonneg
  have hp := hi.pos_le
  have hs := hi.size_le
  by_cases h0 : s.buffer_pos = 0
  · simp only [sendbuf_flush, if_pos h0, Prod.mk.injEq] at h
    obtain ⟨rfl, rfl, rfl⟩ := h
    exact .empty h0
  · have hlt : s.flushing_pos < s.buffer_pos := by
      rcases hi.cursors with hc | hc
      · exact hc
      · exact absurd hc.2 h0
    -- the difference of the cursors is computed without wrapping
    have hto : int32 (s.buffer_pos - s.flushing_pos) = s.buffer_pos - s.flushing_pos :=
      int32_of_mem (by omega) (by omega)
    have hpend : s.buffer.read s.flushing_pos (s.buffer_pos - s.flushing_pos).toNat =
        pending s := rfl
    simp only [sendbuf_flush, if_neg h0, hto, hpend] at h
    generalize f (pending s) (s.buffer_pos - s.flushing_pos) = sent at h
    split_ifs at h with h1 h2
    · simp only [Prod.mk.injEq] at h
      obtain ⟨rfl, rfl, rfl⟩ := h
      subst h1
      exact .failed hlt
    · simp only [Prod.mk.injEq] at h
      obtain ⟨rfl, rfl, rfl⟩ := h
      -- `-1` is the only negative answer of the transport
      obtain ⟨h3, -⟩ := (ha _ (List.mem_singleton.2 rfl)).resolve_left h1
      rw [int32_of_mem (by omega) (by omega)]
      exact .part hlt sent h3 h2
    · simp only [Prod.mk.injEq] at h
      obtain ⟨rfl, rfl, rfl⟩ := h
      obtain ⟨-, h3⟩ := (ha _ (List.mem_singleton.2 rfl)).resolve_left h1
      obtain rfl : sent = s.buffer_pos - s.flushing_pos := by omega
      exact .whole hlt

namespace Flushed

variable {s t : Sendbuf} {r : ℤ} {ev : List Ev}

theorem inv (h : Flushed s r t ev) (hi : Inv s) : Inv t := by
  have hf := hi.flushing_nonneg
  have hs := hi.size_pos
  cases h with
  | empty => exact hi
  | failed => exact { hi with }
  | part hlt sent h0 h1 =>
    exact { hi with
      flushing_nonneg := by show 0 ≤ s.flushing_pos + sent; omega
      cursors := Or.inl (by show s.flushing_pos + sent < s.buffer_pos; omega) }
  | whole =>
    exact { hi with
      flushing_nonneg := le_rfl
      cursors := Or.inr ⟨rfl, rfl⟩
      pos_le := by show (0 : ℤ) ≤ s.buffer_size; omega }

theorem buffer_size_eq (h : Flushed s r t ev) : t.buffer_size = s.buffer_size := by
  cases h <;> rfl

theorem eq_zero (h : Flushed s r t ev) (hr : r ≠ -1) : r = 0 := by
  cases h <;> first | rfl | exact absurd rfl hr

/-- A flush that reports success leaves an empty buffer. -/
theorem pos_eq_zero (h : Flushed s r t ev) (hr : r ≠ -1) : t.buffer_pos = 0 := by
  cases h with
  | empty h => exact h
  | failed => exact absurd rfl hr
  | part => exact absurd rfl hr
  | whole => rfl

end Flushed

/-! ### Whole operations -/

section Token

variable {s u : Sendbuf} {f : SendFunc} {token : List UInt8} {ev : List Ev}

theorem exec_append_refused (h : makeRoom f s token.length = (false, u, ev)) :
    exec s (.append f token) = (u, ev) := by
  rw [← Reentrant.exec_quiet]
  exact Reentrant.exec_refused ((Reentrant.makeRoom_quiet f s _).trans h)

theorem exec_append_taken (h : makeRoom f s token.length = (true, u, ev)) :
    exec s (.append f token) =
      ({ u with
          buffer := u.buffer.write u.buffer_pos token
          buffer_pos := int32 (u.buffer_pos + token.length) },
        ev ++ [.store u.buffer_pos token.length, .accept token]) := by
  rw [← Reentrant.exec_quiet]
  exact Reentrant.exec_taken ((Reentrant.makeRoom_quiet f s _).trans h)

/-- Filling the region that `sendbuf_gettoken` returned is an append. -/
theorem exec_gettoken (s : Sendbuf) (f : SendFunc) (fill : List UInt8) :
    exec s (.gettoken f fill) = exec s (.append f fill) := by
  rw [← Reentrant.exec_quiet, ← Reentrant.exec_quiet]
  exact Reentrant.exec_gettoken s _ fill

end Token

/-- An operation adds a token, in one of two ways that are one, or only flushes. -/
theorem Op.token_or_flush (op : Op) :
    (∃ f token, op.size = List.length token ∧ ∀ s, exec s op = exec s (.append f token)) ∨
      op.size = 0 ∧ ∃ f, op = .flush f ∨ op = .timer f := by
  cases op with
  | append f token => exact .inl ⟨f, token, rfl, fun _ => rfl⟩
  | gettoken f fill => exact .inl ⟨f, fill, rfl, fun s => exec_gettoken s f fill⟩
  | flush f => exact .inr ⟨rfl, f, .inl rfl⟩
  | timer f => exact .inr ⟨rfl, f, .inr rfl⟩

/-- The effects that neither send, store nor take a token. -/
def Ev.Idle : Ev → Prop
  | .timer_add _ | .timer_del => True
  | _ => False

/-- How the room check can end for a token no larger than the buffer. -/
theorem makeRoom_cases {s u : Sendbuf} {f : SendFunc} {size : ℤ} {ok : Bool} {ev : List Ev}
    (hi : Inv s) (h0 : 0 ≤ size) (hsize : size ≤ s.buffer_size)
    (hfits : s.buffer_pos + size ≤ INT_MAX) (h : makeRoom f s size = (ok, u, ev))
    (ha : ∀ e ∈ ev, e.Answered) :
    (Flushed s (if ok then 0 else -1) u ev ∨ (ok = true ∧ u = s ∧ ev = [])) ∧
      (ok = true → u.buffer_pos + size ≤ u.buffer_size) := by
  have hfl : ∀ r, Reentrant.sendbuf_flush (Reentrant.quiet f) s = (r, u, ev) →
      Flushed s r u ev := fun r hr =>
    flushed hi ((Reentrant.flush_quiet f s).symm.trans hr) ha
  obtain ⟨hcase, hfit⟩ := Reentrant.makeRoom_cases hi.pos_nonneg h0 hsize hfits
    (fun _ r hr hne => ⟨(hfl r hr).pos_eq_zero hne, (hfl r hr).buffer_size_eq⟩)
    ((Reentrant.makeRoom_quiet f s size).trans h)
  refine ⟨hcase.imp_left ?_, hfit⟩
  rintro ⟨-, r, hr, rfl⟩
  by_cases hne : r = -1
  · subst hne
    exact hfl _ hr
  · obtain rfl := (hfl r hr).eq_zero hne
    exact hfl _ hr

/-- An operation flushes at most once, and after that stores at most one token, which fits. -/
theorem step_cases {s t : Sendbuf} {op : Op} {out : List Ev} (hi : Inv s)
    (h : SafeStep s op out t) :
    ∃ r u ev, (Flushed s r u ev ∨ (u = s ∧ ev = [])) ∧
      ((t = u ∧ ∃ tail, out = ev ++ tail ∧ ∀ e ∈ tail, e.Idle) ∨
        ∃ token, t = put u token ∧ u.buffer_pos + token.length ≤ u.buffer_size ∧
          out = ev ++ [.store u.buffer_pos token.length, .accept token]) := by
  obtain ⟨⟨hsize, hexec, ha⟩, hfits⟩ := h
  rcases op.token_or_flush with ⟨f, token, hlen, hop⟩ | ⟨-, f, rfl | rfl⟩
  · unfold RoomFits at hfits
    rw [hlen] at hsize hfits
    rw [hop] at hexec
    rcases hroom : makeRoom f s token.length with ⟨ok, u, ev⟩
    cases ok with
    | false =>
      rw [exec_append_refused hroom, Prod.mk.injEq] at hexec
      obtain ⟨rfl, rfl⟩ := hexec
      obtain ⟨hfl, -⟩ := makeRoom_cases hi (by omega) hsize hfits hroom ha
      exact ⟨_, u, ev, .inl (hfl.resolve_right (by simp)), .inl ⟨rfl, [], by simp, by simp⟩⟩
    | true =>
      rw [exec_append_taken hroom, Prod.mk.injEq] at hexec
      obtain ⟨rfl, rfl⟩ := hexec
      obtain ⟨hfl, hfit⟩ := makeRoom_cases hi (by omega) hsize hfits hroom
        (fun e he => ha e (List.mem_append_left _ he))
      have hiu : Inv u := by
        rcases hfl with hfl | ⟨-, rfl, -⟩
        · exact hfl.inv hi
        · exact hi
      refine ⟨0, u, ev, hfl.imp id And.right, .inr ⟨token, ?_, hfit rfl, rfl⟩⟩
      rw [put, hiu.cursor_of_fit (hfit rfl)]
  · rcases hflush : sendbuf_flush f s with ⟨r, u, ev⟩
    simp only [exec, hflush, Prod.mk.injEq] at hexec
    obtain ⟨rfl, rfl⟩ := hexec
    exact ⟨r, u, ev, .inl (flushed hi hflush ha), .inl ⟨rfl, [], by simp, by simp⟩⟩
  · rcases hflush : sendbuf_flush f s with ⟨r, u, ev⟩
    simp only [exec, cb_timer, hflush, Prod.mk.injEq] at hexec
    obtain ⟨rfl, rfl⟩ := hexec
    have hfl := flushed hi hflush (fun e he => ha e (List.mem_append_left _ he))
    exact ⟨r, u, ev, .inl hfl, .inl ⟨rfl, _, rfl, by simp [Ev.Idle]⟩⟩

theorem inv_put {s : Sendbuf} (hi : Inv s) {token : List UInt8}
    (h : s.buffer_pos + token.length ≤ s.buffer_size) : Inv (put s token) where
  size_pos := hi.size_pos
  size_le := hi.size_le
  flushing_nonneg := hi.flushing_nonneg
  cursors := by
    show s.flushing_pos < s.buffer_pos + token.length ∨
      (s.flushing_pos = 0 ∧ s.buffer_pos + token.length = 0)
    rcases hi.cursors with h | h <;> omega
  pos_le := h

/-- The invariant is kept where at most one token is stored, and fits. -/
theorem inv_of_put {u t : Sendbuf} {b : ℤ} (hu : Inv u ∧ u.buffer_size = b)
    (ht : t = u ∨ ∃ token, t = put u token ∧ u.buffer_pos + token.length ≤ u.buffer_size) :
    Inv t ∧ t.buffer_size = b := by
  rcases ht with rfl | ⟨token, rfl, hfit⟩
  · exact hu
  · exact ⟨inv_put hu.1 hfit, hu.2⟩

/-- What keeps the invariant and the size in every step keeps them in a run. -/
theorem run_inv_of_step {ι : Type*} {R : Sendbuf → ι → List Ev → Sendbuf → Prop}
    (hstep : ∀ {s t : Sendbuf} {op : ι} {out : List Ev}, Inv s → R s op out t →
      Inv t ∧ t.buffer_size = s.buffer_size) {s t : Sendbuf} {ops : List ι} {es : List Ev}
    (h : Run R s ops es t) (hi : Inv s) : Inv t ∧ t.buffer_size = s.buffer_size := by
  refine Run.invariant (fun u => Inv u ∧ u.buffer_size = s.buffer_size) ?_ h ⟨hi, rfl⟩
  intro u op out v hu hs
  obtain ⟨hv, hb⟩ := hstep hu.1 hs
  exact ⟨hv, hb.trans hu.2⟩

/-- The invariant is kept by every operation whose room check does not overflow. -/
theorem step_inv {s t : Sendbuf} {op : Op} {out : List Ev} (hi : Inv s)
    (h : SafeStep s op out t) : Inv t ∧ t.buffer_size = s.buffer_size := by
  obtain ⟨r, u, ev, hu, ht⟩ := step_cases hi h
  have hiu : Inv u ∧ u.buffer_size = s.buffer_size := by
    rcases hu with hu | ⟨rfl, -⟩
    · exact ⟨hu.inv hi, hu.buffer_size_eq⟩
    · exact ⟨hi, rfl⟩
  exact inv_of_put hiu (ht.imp And.left fun ⟨token, ht, hfit, _⟩ => ⟨token, ht, hfit⟩)

theorem run_inv {s t : Sendbuf} {ops : List Op} {es : List Ev} (h : Run SafeStep s ops es t)
    (hi : Inv s) : Inv t ∧ t.buffer_size = s.buffer_size :=
  run_inv_of_step step_inv h hi

end Libsendbuf
