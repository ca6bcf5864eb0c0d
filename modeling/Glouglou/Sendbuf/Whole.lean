import Glouglou.Sendbuf.Framing

/-!
# libsendbuf: an owner's view over a transport that takes all or nothing

The owner of a buffer smaller than `2 ^ 30` bytes, whose `send_func` takes what it is offered or
fails, sees this: the buffer starts at its first byte (`Ready`), an operation offers everything
that is pending in one call or offers nothing (`ready_exec`), and `sendbuf_free` offers what is
pending (`offered_free`).
-/

open CInt

namespace Libsendbuf

/-- `send_func` takes what it is offered, or fails. -/
def WholeOrFail (f : SendFunc) : Prop :=
  ∀ data tosend, f data tosend = -1 ∨ f data tosend = data.length

/-- A live buffer of which nothing was sent in part, and whose room checks do not overflow. -/
structure Ready (s : Sendbuf) : Prop where
  inv : Inv s
  flushing_pos : s.flushing_pos = 0
  small : s.buffer_size < 2 ^ 30

/-- The datagrams offered to `send_func`. -/
def offered : Ev → List (List UInt8)
  | .send _ _ data _ => [data]
  | _ => []

/-- Everything at once, if there is anything. -/
def atOnce (data : List UInt8) : List (List UInt8) := if data = [] then [] else [data]

/-- What the effect does to the timer of the buffer. -/
def timer : Ev → Option Bool
  | .timer_add _ => some true
  | .timer_del => some false
  | _ => none

/-- The `send_func` of an operation. -/
def Op.send_func : Op → SendFunc
  | .append f _ | .gettoken f _ | .flush f | .timer f => f

theorem ready_start (buffer : Mem) (msec_max : ℤ) {buffer_size : ℤ} (h : 1 ≤ buffer_size)
    (h' : buffer_size < 2 ^ 30) : Ready (start buffer buffer_size msec_max) where
  inv := inv_start buffer msec_max h (by unfold INT_MAX; omega)
  flushing_pos := rfl
  small := h'

/-! ### The calls of `send_func` -/

/-- A flush does nothing but call `send_func`. -/
theorem timer_flush (f : SendFunc) (s : Sendbuf) :
    ∀ e ∈ (sendbuf_flush f s).2.2, timer e = none := by
  unfold sendbuf_flush
  split_ifs
  · simp
  · dsimp only
    split_ifs <;> simp [timer]

/-- A transport that takes all or nothing keeps to the contract. -/
theorem whole_flush {f : SendFunc} (hf : WholeOrFail f) {s : Sendbuf} (hi : Inv s) :
    ∀ e ∈ (sendbuf_flush f s).2.2, e.Answered ∧ e.AllOrNothing := by
  have hp := hi.pos_le
  have hs := hi.size_le
  have hfl := hi.flushing_nonneg
  have hto : int32 (s.buffer_pos - s.flushing_pos) = s.buffer_pos - s.flushing_pos := by
    rcases hi.cursors with h | h <;> exact int32_of_mem (by omega) (by omega)
  have call : ∀ sent, sent = f (pending s) (s.buffer_pos - s.flushing_pos) →
      Ev.Answered (.send s.flushing_pos (s.buffer_pos - s.flushing_pos) (pending s) sent) ∧
      Ev.AllOrNothing (.send s.flushing_pos (s.buffer_pos - s.flushing_pos) (pending s) sent) := by
    rintro sent rfl
    have hlen := length_pending hi
    rcases hf (pending s) (s.buffer_pos - s.flushing_pos) with h | h
    · exact ⟨.inl h, .inl h⟩
    · exact ⟨.inr ⟨by omega, by omega⟩, .inr (h.trans hlen)⟩
  unfold sendbuf_flush
  rw [hto]
  split_ifs
  · simp
  · dsimp only
    split_ifs <;> simpa [pending] using call _ rfl

/-- The room check calls `send_func` as a flush does, or not at all. -/
theorem mem_makeRoom {f : SendFunc} {s : Sendbuf} {size : ℤ} {e : Ev}
    (h : e ∈ (makeRoom f s size).2.2) : e ∈ (sendbuf_flush f s).2.2 := by
  unfold makeRoom at h
  split_ifs at h
  · exact h
  · cases h

/-- The effects of an append: those of a flush, then the token. -/
theorem mem_append {f : SendFunc} {s : Sendbuf} {token : List UInt8} {e : Ev}
    (h : e ∈ (exec s (.append f token)).2) :
    e ∈ (sendbuf_flush f s).2.2 ∨ (∃ off size, e = .store off size) ∨ e = .accept token := by
  rcases hroom : makeRoom f s token.length with ⟨ok, u, ev⟩
  have hev : ∀ e ∈ ev, e ∈ (sendbuf_flush f s).2.2 := by
    intro e he
    exact mem_makeRoom (by rw [hroom]; exact he)
  cases ok with
  | false =>
    rw [exec_append_refused hroom] at h
    exact .inl (hev e h)
  | true =>
    rw [exec_append_taken hroom] at h
    rcases List.mem_append.1 h with h | h
    · exact .inl (hev e h)
    · simp only [List.mem_cons, List.not_mem_nil, or_false] at h
      rcases h with rfl | rfl
      · exact .inr (.inl ⟨_, _, rfl⟩)
      · exact .inr (.inr rfl)

/-- The effects of any operation: those of a flush, and others that call nobody and leave the
timer armed. -/
theorem mem_exec {s : Sendbuf} {op : Op} {e : Ev} (h : e ∈ (exec s op).2) :
    e ∈ (sendbuf_flush op.send_func s).2.2 ∨
      (e.Answered ∧ e.AllOrNothing ∧ timer e ≠ some false) := by
  have token : ∀ f token, e ∈ (exec s (.append f token)).2 →
      e ∈ (sendbuf_flush f s).2.2 ∨ (e.Answered ∧ e.AllOrNothing ∧ timer e ≠ some false) := by
    intro f token he
    rcases mem_append he with he | ⟨off, size, rfl⟩ | rfl
    · exact .inl he
    · exact .inr ⟨trivial, trivial, by simp [timer]⟩
    · exact .inr ⟨trivial, trivial, by simp [timer]⟩
  cases op with
  | append f t => exact token f t h
  | gettoken f t => exact token f t (by rwa [exec_gettoken] at h)
  | flush f => exact .inl h
  | timer f =>
    rcases List.mem_append.1 h with h | h
    · exact .inl h
    · rw [List.mem_singleton.1 h]
      exact .inr ⟨trivial, trivial, by simp [timer]⟩

/-- Only `sendbuf_free` disarms the timer. -/
theorem timer_exec {s : Sendbuf} {op : Op} {e : Ev} (h : e ∈ (exec s op).2) :
    timer e ≠ some false := by
  rcases mem_exec h with h | ⟨-, -, h⟩
  · rw [timer_flush _ _ e h]
    exact nofun
  · exact h

/-! ### What is offered -/

/-- What is pending is offered at once. -/
theorem Flushed.offered_eq {s t : Sendbuf} {r : ℤ} {ev : List Ev} (h : Flushed s r t ev)
    (hi : Inv s) : ev.flatMap offered = atOnce (pending s) := by
  have hlen := length_pending hi
  have call : s.flushing_pos < s.buffer_pos → atOnce (pending s) = [pending s] := by
    intro hlt
    refine if_neg fun hnil => ?_
    rw [hnil, List.length_nil, Nat.cast_zero] at hlen
    omega
  cases h with
  | empty h0 =>
    have hnil : pending s = [] := by
      rcases hi.cursors with hc | hc
      · have := hi.flushing_nonneg
        omega
      · rw [← List.length_eq_zero_iff]
        omega
    rw [hnil]
    rfl
  | failed hlt => rw [call hlt]; rfl
  | part hlt => rw [call hlt]; rfl
  | whole hlt => rw [call hlt]; rfl

theorem Flushed.flushing_pos_eq {s t : Sendbuf} {r : ℤ} {ev : List Ev} (h : Flushed s r t ev)
    (ha : ∀ e ∈ ev, e.AllOrNothing) (h0 : s.flushing_pos = 0) : t.flushing_pos = 0 := by
  cases h with
  | empty => exact h0
  | failed => exact h0
  | part hlt sent h₀ h₁ => rcases ha _ (List.mem_singleton.2 rfl) with h | h <;> omega
  | whole => rfl

/-- A flush of a ready buffer. -/
theorem ready_flush {s : Sendbuf} (hs : Ready s) {f : SendFunc} (hf : WholeOrFail f) :
    (sendbuf_flush f s).2.2.flatMap offered = atOnce (pending s) := by
  rcases hflush : sendbuf_flush f s with ⟨r, u, ev⟩
  have hw := whole_flush hf hs.inv
  rw [hflush] at hw
  exact (flushed hs.inv hflush fun e he => (hw e he).1).offered_eq hs.inv

/-- The last flush offers what is pending. -/
theorem offered_free {s : Sendbuf} (hs : Ready s) {f : SendFunc} (hf : WholeOrFail f) :
    (sendbuf_free f s).flatMap offered = atOnce (pending s) := by
  rw [sendbuf_free, List.flatMap_cons, ready_flush hs hf]
  rfl

/-- An operation on a ready buffer leaves it ready, and offers what was pending or nothing. -/
theorem ready_exec {s : Sendbuf} (hs : Ready s) {op : Op} (hf : WholeOrFail op.send_func)
    (hsize : op.size ≤ s.buffer_size) :
    Ready (exec s op).1 ∧ ((exec s op).2.flatMap offered = [] ∨
      (exec s op).2.flatMap offered = atOnce (pending s)) := by
  have hw : ∀ e ∈ (exec s op).2, e.Answered ∧ e.AllOrNothing := by
    intro e he
    rcases mem_exec he with he | ⟨ha, hall, -⟩
    · exact whole_flush hf hs.inv e he
    · exact ⟨ha, hall⟩
  have hfits : RoomFits s op := by
    have h1 := hs.inv.pos_le
    have h2 := hs.small
    unfold RoomFits INT_MAX
    omega
  have hstep : SafeStep s op (exec s op).2 (exec s op).1 :=
    ⟨⟨hsize, rfl, fun e he => (hw e he).1⟩, hfits⟩
  have hsmall := hs.small
  rw [← (step_inv hs.inv hstep).2] at hsmall
  obtain ⟨r, u, ev, hu, ht⟩ := step_cases hs.inv hstep
  have hev : ∀ e ∈ ev, e ∈ (exec s op).2 := by
    intro e he
    rcases ht with ⟨-, tail, heq, -⟩ | ⟨token, -, -, heq⟩ <;> rw [heq] <;>
      exact List.mem_append_left _ he
  have hpos : u.flushing_pos = 0 := by
    rcases hu with hu | ⟨rfl, -⟩
    · exact hu.flushing_pos_eq (fun e he => (hw e (hev e he)).2) hs.flushing_pos
    · exact hs.flushing_pos
  have hoff : ev.flatMap offered = [] ∨ ev.flatMap offered = atOnce (pending s) := by
    rcases hu with hu | ⟨-, rfl⟩
    · exact .inr (hu.offered_eq hs.inv)
    · exact .inl rfl
  have htail : (exec s op).2.flatMap offered = ev.flatMap offered := by
    rcases ht with ⟨-, tail, heq, htail⟩ | ⟨token, -, -, heq⟩
    · have hnil : tail.flatMap offered = [] := by
        refine List.flatMap_eq_nil_iff.2 fun e he => ?_
        have := htail e he
        cases e <;> first | rfl | exact this.elim
      rw [heq, List.flatMap_append, hnil, List.append_nil]
    · rw [heq, List.flatMap_append]
      exact List.append_nil _
  refine ⟨⟨(step_inv hs.inv hstep).1, ?_, hsmall⟩, by rwa [htail]⟩
  rcases ht with ⟨heq, -⟩ | ⟨token, heq, -⟩ <;> rw [heq]
  · exact hpos
  · exact hpos

end Libsendbuf
