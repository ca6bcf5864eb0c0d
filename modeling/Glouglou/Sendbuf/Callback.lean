import Glouglou.Sendbuf.Basic

/-!
# libsendbuf: a `send_func` that may append

A call of `send_func` first appends tokens to the buffer it is sending, and then answers.  The
number of bytes to send is computed before the call and the cursors are moved after it, so the
appends fall between the two.  A `send_func` that only answers appends nothing (`quiet`), and for
it nothing is new (`exec_quiet`).

* `Callback`, `sendbuf_flush` and the functions that flush, with such a `send_func`;
* `exec_refused`, `exec_taken`, `exec_gettoken`, `makeRoom_cases`: what follows a flush, whatever
  happened in it.
-/

open CInt

namespace Libsendbuf

namespace Reentrant

/-- What `send_func` does when it is called: the tokens it appends, and its answer. -/
structure Call where
  nested : List (List UInt8)
  sent : ℤ

/-- A `send_func` that may append to the buffer it is called for. -/
abbrev Callback := List UInt8 → ℤ → Call

/-- The answers alone.  A nested append that does not fit would flush with this one; those that
fit call nothing. -/
def answer (send_func : Callback) : SendFunc := fun data tosend => (send_func data tosend).sent

/-- The call that a flush makes. -/
def call (send_func : Callback) (sbuf : Sendbuf) : Call :=
  let tosend := int32 (sbuf.buffer_pos - sbuf.flushing_pos)
  send_func (sbuf.buffer.read sbuf.flushing_pos tosend.toNat) tosend

/-- `sendbuf_flush` -/
def sendbuf_flush (send_func : Callback) (sbuf : Sendbuf) : ℤ × Sendbuf × List Ev :=
  if sbuf.buffer_pos = 0 then (0, sbuf, [])
  else
    let tosend := int32 (sbuf.buffer_pos - sbuf.flushing_pos)
    let data := sbuf.buffer.read sbuf.flushing_pos tosend.toNat
    let c := send_func data tosend
    -- the buffer is as the callback leaves it, `tosend` is what it was
    let r := execAll { sbuf with flushing := 1 } (c.nested.map (.append (answer send_func)))
    let ev := r.2 ++ [.send sbuf.flushing_pos tosend data c.sent]
    if c.sent = -1 then (-1, r.1, ev)
    else if c.sent < tosend then
      (-1, { r.1 with flushing_pos := int32 (r.1.flushing_pos + c.sent) }, ev)
    else (0, { r.1 with buffer_pos := 0, flushing := 0, flushing_pos := 0 }, ev)

/-- The room check. -/
def makeRoom (send_func : Callback) (sbuf : Sendbuf) (size : ℤ) : Bool × Sendbuf × List Ev :=
  if sbuf.buffer_size ≤ int32 (sbuf.buffer_pos + size) then
    let r := sendbuf_flush send_func sbuf
    (decide (r.1 ≠ -1), r.2)
  else (true, sbuf, [])

/-- `sendbuf_append` -/
def sendbuf_append (send_func : Callback) (sbuf : Sendbuf) (token : List UInt8) :
    ℤ × Sendbuf × List Ev :=
  match makeRoom send_func sbuf token.length with
  | (false, sbuf, ev) => (-1, sbuf, ev)
  | (true, sbuf, ev) =>
      (token.length,
        { sbuf with
          buffer := sbuf.buffer.write sbuf.buffer_pos token
          buffer_pos := int32 (sbuf.buffer_pos + token.length) },
        ev ++ [.store sbuf.buffer_pos token.length])

/-- `sendbuf_gettoken` -/
def sendbuf_gettoken (send_func : Callback) (sbuf : Sendbuf) (size : ℤ) :
    Option ℤ × Sendbuf × List Ev :=
  match makeRoom send_func sbuf size with
  | (false, sbuf, ev) => (none, sbuf, ev)
  | (true, sbuf, ev) =>
      (some sbuf.buffer_pos, { sbuf with buffer_pos := int32 (sbuf.buffer_pos + size) }, ev)

/-- `cb_timer` -/
def cb_timer (send_func : Callback) (sbuf : Sendbuf) : Sendbuf × List Ev :=
  let r := sendbuf_flush send_func sbuf
  (r.2.1, r.2.2 ++ [.timer_add r.2.1.ev_timer_tv])

/-- What happens to a live buffer, each time with the `send_func` of the moment. -/
inductive Op
  | append (send_func : Callback) (token : List UInt8)
  | gettoken (send_func : Callback) (fill : List UInt8)
  | flush (send_func : Callback)
  | timer (send_func : Callback)

/-- The size of the token an operation is about, if any. -/
def Op.size : Op → ℤ
  | .append _ token => token.length
  | .gettoken _ fill => fill.length
  | .flush _ | .timer _ => 0

def Op.send_func : Op → Callback
  | .append f _ | .gettoken f _ | .flush f | .timer f => f

/-- One operation and its effects. -/
def exec (sbuf : Sendbuf) : Op → Sendbuf × List Ev
  | .append f token =>
      match sendbuf_append f sbuf token with
      | (r, sbuf, ev) => (sbuf, ev ++ if r = token.length then [.accept token] else [])
  | .gettoken f fill =>
      match sendbuf_gettoken f sbuf fill.length with
      | (none, sbuf, ev) => (sbuf, ev)
      | (some off, sbuf, ev) =>
          ({ sbuf with buffer := sbuf.buffer.write off fill },
            ev ++ [.store off fill.length, .accept fill])
  | .flush f => (sendbuf_flush f sbuf).2
  | .timer f => cb_timer f sbuf

/-! ### After the flush -/

section Token

variable {s u : Sendbuf} {f : Callback} {token : List UInt8} {ev : List Ev}

theorem exec_refused (h : makeRoom f s token.length = (false, u, ev)) :
    exec s (.append f token) = (u, ev) := by
  have hne : ¬ (-1 : ℤ) = token.length := by omega
  simp [exec, sendbuf_append, h, hne]

theorem exec_taken (h : makeRoom f s token.length = (true, u, ev)) :
    exec s (.append f token) =
      ({ u with
          buffer := u.buffer.write u.buffer_pos token
          buffer_pos := int32 (u.buffer_pos + token.length) },
        ev ++ [.store u.buffer_pos token.length, .accept token]) := by
  simp [exec, sendbuf_append, h]

theorem exec_gettoken (s : Sendbuf) (f : Callback) (fill : List UInt8) :
    exec s (.gettoken f fill) = exec s (.append f fill) := by
  rcases h : makeRoom f s fill.length with ⟨ok, u, ev⟩
  cases ok with
  | false =>
    rw [exec_refused h]
    simp only [exec, sendbuf_gettoken, h]
  | true =>
    rw [exec_taken h]
    simp only [exec, sendbuf_gettoken, h]

end Token

/-- How the room check can end for a token no larger than the buffer, if a flush that reports
success leaves the buffer empty. -/
theorem makeRoom_cases {s u : Sendbuf} {f : Callback} {size : ℤ} {ok : Bool} {ev : List Ev}
    (hp : 0 ≤ s.buffer_pos) (h0 : 0 ≤ size) (hsize : size ≤ s.buffer_size)
    (hfits : s.buffer_pos + size ≤ INT_MAX)
    (hempty : s.buffer_size ≤ int32 (s.buffer_pos + size) → ∀ r, sendbuf_flush f s = (r, u, ev) →
      r ≠ -1 → u.buffer_pos = 0 ∧ u.buffer_size = s.buffer_size)
    (h : makeRoom f s size = (ok, u, ev)) :
    ((s.buffer_size ≤ int32 (s.buffer_pos + size) ∧ ∃ r, sendbuf_flush f s = (r, u, ev) ∧
          ok = decide (r ≠ -1)) ∨ (ok = true ∧ u = s ∧ ev = [])) ∧
      (ok = true → u.buffer_pos + size ≤ u.buffer_size) := by
  unfold makeRoom at h
  split_ifs at h with hroom
  · rcases hflush : sendbuf_flush f s with ⟨r, u', ev'⟩
    rw [hflush] at h
    obtain ⟨rfl, rfl, rfl⟩ := by simpa only [Prod.mk.injEq] using h
    refine ⟨.inl ⟨hroom, r, rfl, rfl⟩, fun hok => ?_⟩
    obtain ⟨hpos, hbs⟩ := hempty hroom r hflush (of_decide_eq_true hok)
    omega
  · obtain ⟨rfl, rfl, rfl⟩ := h
    -- the sum in the comparison is computed without wrapping
    have hsum : int32 (s.buffer_pos + size) = s.buffer_pos + size :=
      int32_of_mem (by omega) hfits
    exact ⟨.inr ⟨rfl, rfl, rfl⟩, fun _ => by omega⟩

/-! ### A `send_func` that appends nothing -/

/-- A `send_func` of `Glouglou.Sendbuf.Basic`. -/
def quiet (f : SendFunc) : Callback := fun data tosend => ⟨[], f data tosend⟩

/-- An operation of `Glouglou.Sendbuf.Basic`. -/
def ofOp : Libsendbuf.Op → Op
  | .append f token => .append (quiet f) token
  | .gettoken f fill => .gettoken (quiet f) fill
  | .flush f => .flush (quiet f)
  | .timer f => .timer (quiet f)

theorem flush_quiet (f : SendFunc) (s : Sendbuf) :
    sendbuf_flush (quiet f) s = Libsendbuf.sendbuf_flush f s := by
  unfold sendbuf_flush Libsendbuf.sendbuf_flush quiet
  by_cases h0 : s.buffer_pos = 0
  · rw [if_pos h0, if_pos h0]
  · rw [if_neg h0, if_neg h0]
    rfl

theorem makeRoom_quiet (f : SendFunc) (s : Sendbuf) (size : ℤ) :
    makeRoom (quiet f) s size = Libsendbuf.makeRoom f s size := by
  rw [makeRoom, flush_quiet]
  rfl

/-- Nothing is new where nothing is appended. -/
theorem exec_quiet (s : Sendbuf) (op : Libsendbuf.Op) :
    exec s (ofOp op) = Libsendbuf.exec s op := by
  cases op with
  | append f token =>
    simp only [ofOp, exec, sendbuf_append, makeRoom_quiet]
    rfl
  | gettoken f fill =>
    simp only [ofOp, exec, sendbuf_gettoken, makeRoom_quiet]
    rfl
  | flush f =>
    simp only [ofOp, exec, flush_quiet]
    rfl
  | timer f =>
    simp only [ofOp, exec, cb_timer, flush_quiet]
    rfl

theorem size_ofOp (op : Libsendbuf.Op) : (ofOp op).size = op.size := by
  cases op <;> rfl

end Reentrant

end Libsendbuf
