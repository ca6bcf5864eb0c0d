import Glouglou.Lib.Run
import Glouglou.Lib.CInt
import Glouglou.Lib.Memory

/-!
# libsendbuf: the send buffer

The functions of `libsendbuf.c` over `struct sendbuf`.  The buffer is the memory at
`sbuf->buffer`, and the three cursors are C `int`s, so every sum and difference of them wraps.
`send_func` is whatever the owner of the buffer installed: it is handed the bytes to send and
their number and answers with an `int`.

A function returns its C result, the new `struct sendbuf` and the list of its effects in
order (`Ev`): calls of `send_func` with the answer, stores into the buffer, timer requests.

* `sendbuf_new`, `sendbuf_free`, `sendbuf_append`, `sendbuf_gettoken`, `sendbuf_flush`,
  `cb_timer`;
* `Op`, `exec`: what the owner and the event loop can do with a live buffer;
* `Step`, `SafeStep`: the same as transducers, the second one restricted to operations whose
  room check does not overflow.
-/

open CInt Transducer

namespace Libsendbuf

/-- `struct sendbuf`, less the handles that the functions only pass on. -/
structure Sendbuf where
  /-- microseconds between two timer callbacks, `ev_timer_tv.tv_usec` -/
  ev_timer_tv : ℤ
  msec_max : ℤ
  buffer_size : ℤ
  buffer : Mem
  /-- next to use in buffer -/
  buffer_pos : ℤ
  flushing : ℤ
  /-- next to send in buffer -/
  flushing_pos : ℤ

/-- `send_func`: the bytes at the pointer it is given and `tosend`, to its `int` result. -/
abbrev SendFunc := List UInt8 → ℤ → ℤ

/-- The effects of the functions on the world around the `struct sendbuf`. -/
inductive Ev
  /-- `send_func(buffer + off, tosend)` found `data` there and returned `sent` -/
  | send (off tosend : ℤ) (data : List UInt8) (sent : ℤ)
  /-- `size` bytes were stored at `buffer + off` -/
  | store (off size : ℤ)
  /-- the token was taken: its append returned `size`, or its gettoken was not `NULL` -/
  | accept (token : List UInt8)
  | timer_add (usec : ℤ)
  | timer_del

/-- The structure as `sendbuf_new` fills it in, over the memory `malloc` returned. -/
def start (buffer : Mem) (buffer_size msec_max : ℤ) : Sendbuf where
  ev_timer_tv := int32 (msec_max * 1000)
  msec_max := msec_max
  buffer_size := buffer_size
  buffer := buffer
  buffer_pos := 0
  flushing := 0
  flushing_pos := 0

/-- `sendbuf_new`; `calloc` and `malloc` are what the allocator answers.  On a failed `malloc`
the error path frees a structure that has neither timer nor buffer, which has no effect. -/
def sendbuf_new (calloc : Bool) (malloc : Option Mem) (buffer_size msec_max : ℤ) :
    Option Sendbuf × List Ev :=
  if calloc then
    match malloc with
    | none => (none, [])
    | some buffer =>
        (some (start buffer buffer_size msec_max), [.timer_add (int32 (msec_max * 1000))])
  else (none, [])

/-- `sendbuf_flush`: offer everything between the cursors to `send_func`, once. -/
def sendbuf_flush (send_func : SendFunc) (sbuf : Sendbuf) : ℤ × Sendbuf × List Ev :=
  if sbuf.buffer_pos = 0 then (0, sbuf, [])
  else
    let tosend := int32 (sbuf.buffer_pos - sbuf.flushing_pos)
    let data := sbuf.buffer.read sbuf.flushing_pos tosend.toNat
    let sent := send_func data tosend
    let ev := [Ev.send sbuf.flushing_pos tosend data sent]
    if sent = -1 then (-1, { sbuf with flushing := 1 }, ev)
    else if sent < tosend then
      (-1, { sbuf with flushing := 1, flushing_pos := int32 (sbuf.flushing_pos + sent) }, ev)
    else (0, { sbuf with buffer_pos := 0, flushing := 0, flushing_pos := 0 }, ev)

/-- The room check that opens `sendbuf_append` and `sendbuf_gettoken`: `false` when it flushed
and the flush did not complete. -/
def makeRoom (send_func : SendFunc) (sbuf : Sendbuf) (size : ℤ) : Bool × Sendbuf × List Ev :=
  if sbuf.buffer_size ≤ int32 (sbuf.buffer_pos + size) then
    let r := sendbuf_flush send_func sbuf
    (decide (r.1 ≠ -1), r.2)
  else (true, sbuf, [])

/-- `sendbuf_append`: the token is copied behind what is already buffered. -/
def sendbuf_append (send_func : SendFunc) (sbuf : Sendbuf) (token : List UInt8) :
    ℤ × Sendbuf × List Ev :=
  match makeRoom send_func sbuf token.length with
  | (false, sbuf, ev) => (-1, sbuf, ev)
  | (true, sbuf, ev) =>
      (token.length,
        { sbuf with
          buffer := sbuf.buffer.write sbuf.buffer_pos token
          buffer_pos := int32 (sbuf.buffer_pos + token.length) },
        ev ++ [.store sbuf.buffer_pos token.length])

/-- `sendbuf_gettoken`: the offset in the buffer where the caller may write `size` bytes. -/
def sendbuf_gettoken (send_func : SendFunc) (sbuf : Sendbuf) (size : ℤ) :
    Option ℤ × Sendbuf × List Ev :=
  match makeRoom send_func sbuf size with
  | (false, sbuf, ev) => (none, sbuf, ev)
  | (true, sbuf, ev) =>
      (some sbuf.buffer_pos, { sbuf with buffer_pos := int32 (sbuf.buffer_pos + size) }, ev)

/-- `cb_timer`: flush and rearm. -/
def cb_timer (send_func : SendFunc) (sbuf : Sendbuf) : Sendbuf × List Ev :=
  let r := sendbuf_flush send_func sbuf
  (r.2.1, r.2.2 ++ [.timer_add r.2.1.ev_timer_tv])

/-- `sendbuf_free` of a buffer that `sendbuf_new` returned: cancel the timer and flush once
more, whatever comes of it. -/
def sendbuf_free (send_func : SendFunc) (sbuf : Sendbuf) : List Ev :=
  .timer_del :: (sendbuf_flush send_func sbuf).2.2

/-! ### Runs -/

/-- What happens to a live buffer, each time with the `send_func` of the moment; the region
returned by `sendbuf_gettoken` is filled at once. -/
inductive Op
  | append (send_func : SendFunc) (token : List UInt8)
  | gettoken (send_func : SendFunc) (fill : List UInt8)
  | flush (send_func : SendFunc)
  | timer (send_func : SendFunc)

/-- The size of the token an operation is about, if any. -/
def Op.size : Op → ℤ
  | .append _ token => token.length
  | .gettoken _ fill => fill.length
  | .flush _ | .timer _ => 0

/-- One operation and its effects. -/
def exec (sbuf : Sendbuf) : Op → Sendbuf × List Ev
  | .append f token =>
      match sendbuf_append f sbuf token with
      | (r, sbuf, ev) => (sbuf, ev ++ if r = token.length then [.accept token] else [])
  | .gettoken f fill =>
      match sendbuf_gettoken f sbuf fill.length with
      | (none, sbuf, ev) => (sbuf, ev)
      | (some off, sbuf, ev) =>
          ({ sbuf with buffer := sbuf.buffer.write off fill },
            ev ++ [.store off fill.length, .accept fill])
  | .flush f => (sendbuf_flush f sbuf).2
  | .timer f => cb_timer f sbuf

/-- The transport kept to its contract: `-1`, or a count up to what it was offered. -/
def Ev.Answered : Ev → Prop
  | .send _ tosend _ sent => sent = -1 ∨ (0 ≤ sent ∧ sent ≤ tosend)
  | _ => True

/-- The transport took all or nothing. -/
def Ev.AllOrNothing : Ev → Prop
  | .send _ tosend _ sent => sent = -1 ∨ sent = tosend
  | _ => True

/-- A step: the token is no larger than the buffer and the transport keeps to its contract. -/
def Step (s : Sendbuf) (op : Op) (out : List Ev) (t : Sendbuf) : Prop :=
  op.size ≤ s.buffer_size ∧ exec s op = (t, out) ∧ ∀ e ∈ out, e.Answered

/-- The room check `buffer_pos + size >= buffer_size` is evaluated without overflow. -/
def RoomFits (s : Sendbuf) (op : Op) : Prop := s.buffer_pos + op.size ≤ INT_MAX

/-- A step whose room check does not overflow. -/
def SafeStep (s : Sendbuf) (op : Op) (out : List Ev) (t : Sendbuf) : Prop :=
  Step s op out t ∧ RoomFits s op

/-- The operations one after another: the final state and all effects. -/
def execAll (sbuf : Sendbuf) : List Op → Sendbuf × List Ev
  | [] => (sbuf, [])
  | op :: ops =>
      let r := exec sbuf op
      let r' := execAll r.1 ops
      (r'.1, r.2 ++ r'.2)

/-- A transport that takes nothing. -/
def blocked : SendFunc := fun _ _ => -1

instance (e : Ev) : Decidable e.Answered := by
  cases e <;> unfold Ev.Answered <;> infer_instance

instance (e : Ev) : Decidable e.AllOrNothing := by
  cases e <;> unfold Ev.AllOrNothing <;> infer_instance

theorem buffer_size_flush (f : SendFunc) (s : Sendbuf) :
    (sendbuf_flush f s).2.1.buffer_size = s.buffer_size := by
  unfold sendbuf_flush
  split_ifs <;> first | rfl | (dsimp only; split_ifs <;> rfl)

theorem buffer_size_makeRoom (f : SendFunc) (s : Sendbuf) (size : ℤ) :
    (makeRoom f s size).2.1.buffer_size = s.buffer_size := by
  unfold makeRoom
  split_ifs
  · exact buffer_size_flush f s
  · rfl

@[simp] theorem buffer_size_exec (s : Sendbuf) (op : Op) :
    (exec s op).1.buffer_size = s.buffer_size := by
  cases op with
  | append f token =>
    have h := buffer_size_makeRoom f s token.length
    rcases hr : makeRoom f s token.length with ⟨ok, u, ev⟩
    rw [hr] at h
    cases ok <;> simpa [exec, sendbuf_append, hr] using h
  | gettoken f fill =>
    have h := buffer_size_makeRoom f s fill.length
    rcases hr : makeRoom f s fill.length with ⟨ok, u, ev⟩
    rw [hr] at h
    cases ok <;> simpa [exec, sendbuf_gettoken, hr] using h
  | flush f => exact buffer_size_flush f s
  | timer f => exact buffer_size_flush f s

/-- `execAll` is a run when the tokens fit the buffer and the transport keeps to its contract. -/
theorem run_execAll {s : Sendbuf} {ops : List Op} (hops : ∀ op ∈ ops, op.size ≤ s.buffer_size)
    (h : ∀ e ∈ (execAll s ops).2, e.Answered) :
    Run Step s ops (execAll s ops).2 (execAll s ops).1 := by
  induction ops generalizing s with
  | nil => exact .nil
  | cons op ops ih =>
    simp only [execAll, List.mem_append] at h
    have hstep : Step s op (exec s op).2 (exec s op).1 :=
      ⟨hops op List.mem_cons_self, rfl, fun e he => h e (.inl he)⟩
    refine Run.cons hstep (ih ?_ fun e he => h e (.inr he))
    intro op' hop'
    rw [buffer_size_exec]
    exact hops op' (List.mem_cons_of_mem _ hop')

end Libsendbuf
