import Glouglou.Sendbuf.Overflow

/-!
# libsendbuf: the byte stream

A live buffer is a queue of bytes: `pending` is what waits, an accepted token is pushed, and
what `send_func` takes is popped (`step_fifo`, `run_fifo`).  From this:

* `stream_integrity_iff`: what was taken, followed by what is pending, is what was accepted,
  and no store leaves the buffer, in a run exactly when no room check of it overflows;
* `calls_positive_iff`: in such a run every call of `send_func`, those of a final `sendbuf_free`
  included, offers at least one byte and only bytes of the buffer;
* `free_hands_iff`: what of the pending bytes `sendbuf_free` hands to a transport that takes some
  bytes of every call.

`overflow_run` is the run that overflows, possible from `buffer_size = 2 ^ 30` on.
-/

open CInt Transducer

namespace Libsendbuf

/-- The bytes a call of `send_func` took. -/
def taken : Ev → List UInt8
  | .send _ _ data sent => data.take sent.toNat
  | _ => []

/-- The token an operation was accepted with. -/
def accepted : Ev → List (List UInt8)
  | .accept token => [token]
  | _ => []

/-- Every store lands inside the buffer. -/
def StoresInBounds (buffer_size : ℤ) (es : List Ev) : Prop :=
  ∀ off size, Ev.store off size ∈ es → Mem.InBounds buffer_size off size

/-- Every call of `send_func` offers at least one byte, and only bytes of the buffer. -/
def CallsPositive (buffer_size : ℤ) (es : List Ev) : Prop :=
  ∀ off tosend data sent, Ev.send off tosend data sent ∈ es →
    0 < tosend ∧ Mem.InBounds buffer_size off tosend

/-- The stream is whole after the effects `es`, in the state `s`. -/
def Integrity (s : Sendbuf) (es : List Ev) : Prop :=
  es.flatMap taken ++ pending s = (es.flatMap accepted).flatten ∧
    StoresInBounds s.buffer_size es

/-- The queue operation an effect stands for. -/
def toFifo : Ev → List (Fifo.Op UInt8)
  | .send _ _ _ sent => [.pop sent.toNat]
  | .accept token => [.push token]
  | _ => []

/-- An effect that neither sends, stores nor accepts is nothing to the queue. -/
theorem Ev.Idle.quiet {e : Ev} (h : e.Idle) :
    toFifo e = [] ∧ taken e = [] ∧ accepted e = [] := by
  cases e <;> first | exact ⟨rfl, rfl, rfl⟩ | exact h.elim

theorem pending_put {s : Sendbuf} (hi : Inv s) (token : List UInt8) :
    pending (put s token) = pending s ++ token := by
  have hc := hi.cursors
  have hlen : ((s.buffer_pos - s.flushing_pos).toNat : ℤ) = s.buffer_pos - s.flushing_pos := by
    omega
  have h := s.buffer.read_write_append s.flushing_pos (s.buffer_pos - s.flushing_pos).toNat token
  rw [hlen, show s.flushing_pos + (s.buffer_pos - s.flushing_pos) = s.buffer_pos by omega] at h
  have hn : (s.buffer_pos + token.length - s.flushing_pos).toNat =
      (s.buffer_pos - s.flushing_pos).toNat + token.length := by omega
  rw [pending, pending, ← h]
  simp only [put, hn]

theorem pending_eq_nil {s : Sendbuf} (hi : Inv s) (h : s.buffer_pos = 0) : pending s = [] := by
  have hf := hi.flushing_nonneg
  rw [pending, show (s.buffer_pos - s.flushing_pos).toNat = 0 by omega]
  rfl

/-- Moving `flushing_pos` drops bytes at the front. -/
theorem pending_advance (s : Sendbuf) {sent : ℤ} (h0 : 0 ≤ sent)
    (h : sent ≤ s.buffer_pos - s.flushing_pos) :
    pending { s with flushing_pos := s.flushing_pos + sent } = (pending s).drop sent.toNat := by
  rw [pending, pending, Mem.drop_read _ _ (by omega)]
  congr 1 <;> simp only <;> omega

/-- A flush pops exactly what the transport took. -/
theorem Flushed.fifo {s t : Sendbuf} {r : ℤ} {ev : List Ev} (h : Flushed s r t ev) :
    Run Fifo.Step (pending s) (ev.flatMap toFifo) (ev.flatMap taken) (pending t) := by
  cases h with
  | empty => exact .nil
  | failed hlt => exact Run.single ⟨by simp [taken], rfl⟩
  | part hlt sent h0 h1 =>
    exact Run.single ⟨by simp [taken], pending_advance s h0 h1.le⟩
  | whole hlt =>
    refine Run.single ⟨by simp [taken], ?_⟩
    rw [pending, pending, Mem.drop_read _ _ le_rfl, Nat.sub_self]
    rfl

/-- A safe step is a run of the queue. -/
theorem step_fifo {s t : Sendbuf} {op : Op} {out : List Ev} (hi : Inv s)
    (h : SafeStep s op out t) :
    Run Fifo.Step (pending s) (out.flatMap toFifo) (out.flatMap taken) (pending t) := by
  obtain ⟨r, u, ev, hu, ht⟩ := step_cases hi h
  have hu' : Inv u ∧
      Run Fifo.Step (pending s) (ev.flatMap toFifo) (ev.flatMap taken) (pending u) := by
    rcases hu with hu | ⟨rfl, rfl⟩
    · exact ⟨hu.inv hi, hu.fifo⟩
    · exact ⟨hi, .nil⟩
  rcases ht with ⟨rfl, tail, rfl, htail⟩ | ⟨token, rfl, -, rfl⟩
  · have h1 : tail.flatMap toFifo = [] :=
      List.flatMap_eq_nil_iff.2 fun e he => (htail e he).quiet.1
    have h2 : tail.flatMap taken = [] :=
      List.flatMap_eq_nil_iff.2 fun e he => (htail e he).quiet.2.1
    rw [List.flatMap_append, List.flatMap_append, h1, h2, List.append_nil, List.append_nil]
    exact hu'.2
  · rw [List.flatMap_append, List.flatMap_append, pending_put hu'.1]
    exact hu'.2.trans (Run.single ⟨rfl, rfl⟩)

/-- A store inside the buffer, or a call that offers at least one byte of it. -/
def Ev.Sound (buffer_size : ℤ) : Ev → Prop
  | .send off tosend data _ =>
      (0 < tosend ∧ Mem.InBounds buffer_size off tosend) ∧ (data.length : ℤ) = tosend
  | .store off size => Mem.InBounds buffer_size off size
  | _ => True

theorem Flushed.sound {s t : Sendbuf} {r : ℤ} {ev : List Ev} (h : Flushed s r t ev)
    (hi : Inv s) : ∀ e ∈ ev, e.Sound s.buffer_size := by
  have hf := hi.flushing_nonneg
  have hp := hi.pos_le
  have call : ∀ sent, s.flushing_pos < s.buffer_pos →
      (Ev.send s.flushing_pos (s.buffer_pos - s.flushing_pos) (pending s) sent).Sound
        s.buffer_size := by
    intro sent hlt
    exact ⟨⟨by omega, hf, by omega⟩, length_pending hi⟩
  cases h with
  | empty => simp
  | failed hlt => simpa using call _ hlt
  | part hlt => simpa using call _ hlt
  | whole hlt => simpa using call _ hlt

/-- A safe step stores inside the buffer and offers at least one byte of it. -/
theorem step_sound {s t : Sendbuf} {op : Op} {out : List Ev} (hi : Inv s)
    (h : SafeStep s op out t) : ∀ e ∈ out, e.Sound s.buffer_size := by
  obtain ⟨r, u, ev, hu, ht⟩ := step_cases hi h
  have hev : (∀ e ∈ ev, e.Sound s.buffer_size) ∧ 0 ≤ u.buffer_pos ∧
      u.buffer_size = s.buffer_size := by
    rcases hu with hu | ⟨rfl, rfl⟩
    · exact ⟨hu.sound hi, (hu.inv hi).pos_nonneg, hu.buffer_size_eq⟩
    · exact ⟨by simp, hi.pos_nonneg, rfl⟩
  intro e he
  rcases ht with ⟨-, tail, rfl, htail⟩ | ⟨token, -, hfit, rfl⟩
  · rcases List.mem_append.1 he with he | he
    · exact hev.1 e he
    · have := htail e he
      cases e <;> trivial
  · rcases List.mem_append.1 he with he | he
    · exact hev.1 e he
    · simp only [List.mem_cons, List.not_mem_nil, or_false] at he
      rcases he with rfl | rfl
      · exact ⟨hev.2.1, by rw [← hev.2.2]; exact hfit⟩
      · trivial

/-! ### Runs without overflow -/

section SafeRuns

variable {s t : Sendbuf} {ops : List Op} {es : List Ev}

theorem run_sound (h : Run SafeStep s ops es t) (hi : Inv s) :
    ∀ e ∈ es, e.Sound s.buffer_size := by
  refine (Run.invariant_out (fun u => Inv u ∧ u.buffer_size = s.buffer_size) _ ?_ h
    ⟨hi, rfl⟩).2
  intro u op out v hu hs
  obtain ⟨hv, hb⟩ := step_inv hu.1 hs
  exact ⟨⟨hv, hb.trans hu.2⟩, hu.2 ▸ step_sound hu.1 hs⟩

/-- A run without overflow is a run of the queue. -/
theorem run_fifo (h : Run SafeStep s ops es t) (hi : Inv s) :
    Run Fifo.Step (pending s) (es.flatMap toFifo) (es.flatMap taken) (pending t) := by
  obtain ⟨q, outs, hrun, rfl, -, rfl⟩ := Run.simulate (fun u q => Inv u ∧ q = pending u) toFifo
    (fun es outs => outs = es.flatMap taken) rfl (by rintro _ _ _ _ rfl rfl; simp)
    (by
      rintro u op out v q ⟨hu, rfl⟩ hs
      exact ⟨_, _, step_fifo hu hs, rfl, (step_inv hu hs).1, rfl⟩) h ⟨hi, rfl⟩
  exact hrun

theorem pushed_toFifo (es : List Ev) :
    (es.flatMap toFifo).flatMap Fifo.Op.pushed = (es.flatMap accepted).flatten := by
  induction es with
  | nil => rfl
  | cons e es ih =>
    rw [List.flatMap_cons, List.flatMap_append, ih, List.flatMap_cons, List.flatten_append]
    congr 1
    cases e <;> simp [toFifo, accepted, Fifo.Op.pushed]

/-- In a run without overflow the stream is whole at the end, hence at every point. -/
theorem integrity_of_safe (h : Run SafeStep s ops es t) (hi : Inv s) (h0 : pending s = []) :
    Integrity t es := by
  have hfifo := Fifo.conservation (run_fifo h hi)
  rw [h0, List.nil_append, pushed_toFifo] at hfifo
  refine ⟨hfifo, fun off size he => ?_⟩
  rw [(run_inv h hi).2]
  exact run_sound h hi _ he

end SafeRuns

/-- A run that stores nothing outside the buffer had no overflow. -/
theorem safe_of_stores {s t : Sendbuf} {ops : List Op} {es : List Ev} (h : Run Step s ops es t)
    (hi : Inv s) (hst : StoresInBounds s.buffer_size es) : Run SafeStep s ops es t := by
  induction h with
  | nil => exact .nil
  | @snoc ops es u op out v _ hs ih =>
    have hsafe := ih fun off size he => hst off size (List.mem_append_left _ he)
    obtain ⟨hu, hb⟩ := run_inv hsafe hi
    refine hsafe.snoc ⟨hs, ?_⟩
    -- the first overflow of the run would show as a store outside
    by_contra hno
    obtain ⟨size, hmem, hout⟩ := store_of_overflow hu hs hno
    rw [hb] at hout
    exact hout (hst _ _ (List.mem_append_right _ hmem))

theorem not_integrity_overflow {t : Sendbuf} {buffer_size : ℤ} (h : 1 ≤ buffer_size)
    (hb : t.buffer_size = buffer_size) : ¬ Integrity t (overflowEvs buffer_size) := by
  intro hint
  have := (hint.2 buffer_size buffer_size (by simp [overflowEvs])).2
  omega

/-! ### The main results -/

/-- **Stream integrity.**  At the end of a run, what `send_func` took followed by what is
pending is what was accepted, and every store landed in the buffer, exactly when no room check
of the run overflowed; this is so in all runs exactly for buffers smaller than `2 ^ 30`. -/
theorem stream_integrity_iff (buffer : Mem) (msec_max : ℤ) {buffer_size : ℤ}
    (h : 1 ≤ buffer_size) (h' : buffer_size ≤ INT_MAX) :
    (∀ ops es t, Run Step (start buffer buffer_size msec_max) ops es t →
      (Integrity t es ↔ Run SafeStep (start buffer buffer_size msec_max) ops es t)) ∧
    ((∀ ops es t, Run Step (start buffer buffer_size msec_max) ops es t → Integrity t es) ↔
      buffer_size < 2 ^ 30) := by
  have hi := inv_start buffer msec_max h h'
  refine ⟨fun ops es t hrun => ⟨fun hint => ?_, fun hsafe => ?_⟩, ⟨fun hall => ?_, ?_⟩⟩
  · have hsize : t.buffer_size = buffer_size :=
      Run.invariant (fun u => u.buffer_size = buffer_size)
        (fun u op out v hu hs => by
          have := buffer_size_exec u op
          rw [hs.2.1] at this
          exact this.trans hu) hrun rfl
    have hst := hint.2
    rw [hsize] at hst
    exact safe_of_stores hrun hi hst
  · exact integrity_of_safe hsafe hi rfl
  · by_contra hbig
    obtain ⟨t, hrun, hb, -⟩ := overflow_run buffer msec_max (by omega) h'
    exact not_integrity_overflow h hb (hall _ _ t hrun)
  · intro hsmall ops es t hrun
    exact integrity_of_safe (safe_of_small hrun hi hsmall) hi rfl

/-- A refused token, a partial send and a timer tick in a buffer of four bytes. -/
theorem stream_integrity_four :
    let ops : List Op := [.append (fun _ _ => -1) [1, 2], .append (fun _ _ => -1) [3, 4],
      .gettoken (fun _ _ => 1) [5], .timer fun _ _ => 1]
    let r := execAll (start (fun _ => 0) 4 200) ops
    Integrity r.1 r.2 :=
  ((stream_integrity_iff (fun _ => 0) 200 (by decide) (by decide)).2.2 (by decide)) _ _ _
    (run_execAll (by decide) (by decide))

/-- Two tokens of `2 ^ 30` bytes in a buffer of that size: the second one is stored past the
end. -/
theorem stream_integrity_overflow :
    ∃ t, Run Step (start (fun _ => 0) (2 ^ 30) 200) (overflowOps (2 ^ 30))
        (overflowEvs (2 ^ 30)) t ∧ ¬ Integrity t (overflowEvs (2 ^ 30)) := by
  obtain ⟨t, hrun, hb, -⟩ := overflow_run (fun _ => 0) 200 le_rfl (by decide)
  exact ⟨t, hrun, not_integrity_overflow (by decide) hb⟩

/-- With a last flush on `sendbuf_free`, every call offers at least one byte of the buffer. -/
theorem calls_positive_of_safe {s t : Sendbuf} {ops : List Op} {es : List Ev} {f : SendFunc}
    (h : Run SafeStep s ops es t) (hi : Inv s) (ha : ∀ e ∈ sendbuf_free f t, e.Answered) :
    CallsPositive s.buffer_size (es ++ sendbuf_free f t) := by
  obtain ⟨ht, hb⟩ := run_inv h hi
  have hfree : ∀ e ∈ sendbuf_free f t, e.Sound t.buffer_size := by
    rcases hflush : sendbuf_flush f t with ⟨r, u, ev⟩
    simp only [sendbuf_free, hflush, List.mem_cons] at ha ⊢
    have hfl := flushed ht hflush fun e he => ha e (.inr he)
    rintro e (rfl | he)
    · trivial
    · exact hfl.sound ht e he
  intro off tosend data sent he
  rcases List.mem_append.1 he with he | he
  · exact (run_sound h hi _ he).1
  · exact hb ▸ (hfree _ he).1

/-- After the overflow the next flush offers a negative number of bytes. -/
theorem not_calls_positive_overflow {t : Sendbuf} {buffer_size : ℤ} (es : List Ev)
    (h : 2 ^ 30 ≤ buffer_size) (h' : buffer_size ≤ INT_MAX) (hf : t.flushing_pos = 0)
    (hp : t.buffer_pos = 2 * buffer_size - 2 ^ 32) :
    (∀ e ∈ sendbuf_free blocked t, e.Answered) ∧
      ¬ CallsPositive buffer_size (es ++ sendbuf_free blocked t) := by
  have hfree : sendbuf_free blocked t =
      [.timer_del, .send 0 (2 * buffer_size - 2 ^ 32) [] (-1)] := by
    rw [sendbuf_free, flush_overflow h h' hf hp]
  rw [hfree]
  constructor
  · simp [Ev.Answered]
  · intro hpos
    have := (hpos 0 (2 * buffer_size - 2 ^ 32) [] (-1) (by simp)).1
    unfold INT_MAX at h'
    omega

/-- **No empty datagram.**  In a run without overflow followed by `sendbuf_free` every call of
`send_func` offers at least one byte of the buffer; this is so in all runs exactly for buffers
smaller than `2 ^ 30`. -/
theorem calls_positive_iff (buffer : Mem) (msec_max : ℤ) {buffer_size : ℤ}
    (h : 1 ≤ buffer_size) (h' : buffer_size ≤ INT_MAX) :
    (∀ ops es t f, Run SafeStep (start buffer buffer_size msec_max) ops es t →
      (∀ e ∈ sendbuf_free f t, e.Answered) →
        CallsPositive buffer_size (es ++ sendbuf_free f t)) ∧
    ((∀ ops es t f, Run Step (start buffer buffer_size msec_max) ops es t →
      (∀ e ∈ sendbuf_free f t, e.Answered) →
        CallsPositive buffer_size (es ++ sendbuf_free f t)) ↔ buffer_size < 2 ^ 30) := by
  have hi := inv_start buffer msec_max h h'
  refine ⟨fun ops es t f hrun ha => calls_positive_of_safe hrun hi ha, ⟨fun hall => ?_, ?_⟩⟩
  · by_contra hbig
    obtain ⟨t, hrun, -, hf, hp⟩ := overflow_run buffer msec_max (by omega) h'
    obtain ⟨ha, hno⟩ := not_calls_positive_overflow (overflowEvs buffer_size) (by omega) h' hf hp
    exact hno (hall _ _ t blocked hrun ha)
  · intro hsmall ops es t f hrun ha
    exact calls_positive_of_safe (safe_of_small hrun hi hsmall) hi ha

/-- Empty tokens, a transport that takes nothing and one that takes a byte at a time. -/
theorem calls_positive_four :
    let ops : List Op := [.flush fun _ _ => 0, .append (fun _ _ => 0) [],
      .append (fun _ _ => 0) [1, 2, 3], .gettoken (fun _ _ => 1) [], .timer fun _ _ => 0]
    let r := execAll (start (fun _ => 0) 4 200) ops
    CallsPositive 4 (r.2 ++ sendbuf_free (fun _ _ => 1) r.1) :=
  ((calls_positive_iff (fun _ => 0) 200 (by decide) (by decide)).2.2 (by decide)) _ _ _ _
    (run_execAll (by decide) (by decide)) (by decide)

/-- After two tokens of `2 ^ 30` bytes in a buffer of that size, `sendbuf_free` offers
`-2 ^ 31` bytes. -/
theorem calls_positive_overflow :
    ∃ t, Run Step (start (fun _ => 0) (2 ^ 30) 200) (overflowOps (2 ^ 30))
        (overflowEvs (2 ^ 30)) t ∧ (∀ e ∈ sendbuf_free blocked t, e.Answered) ∧
      ¬ CallsPositive (2 ^ 30) (overflowEvs (2 ^ 30) ++ sendbuf_free blocked t) := by
  obtain ⟨t, hrun, -, hf, hp⟩ := overflow_run (fun _ => 0) 200 le_rfl (by decide)
  exact ⟨t, hrun, not_calls_positive_overflow _ le_rfl (by decide) hf hp⟩

/-! ### The last flush -/

/-- A transport that never fails, and takes at least one byte of what it is offered. -/
def Working (f : SendFunc) : Prop := ∀ data tosend, 1 ≤ tosend →
  1 ≤ f data tosend ∧ f data tosend ≤ tosend

/-- `sendbuf_free` hands all that is pending to `send_func`, in order. -/
def FreesAll (f : SendFunc) (s : Sendbuf) : Prop := (sendbuf_free f s).flatMap taken = pending s

/-- `sendbuf_free` makes one call, of which it ignores the answer. -/
theorem taken_free {s : Sendbuf} (hi : Inv s) (f : SendFunc) :
    (sendbuf_free f s).flatMap taken =
      (pending s).take (f (pending s) (pending s).length).toNat := by
  have hlen := length_pending hi
  have hf := hi.flushing_nonneg
  have hp := hi.pos_le
  have hs := hi.size_le
  by_cases h0 : s.buffer_pos = 0
  · rw [sendbuf_free, sendbuf_flush, if_pos h0, pending_eq_nil hi h0, List.take_nil]
    rfl
  · have hto : int32 (s.buffer_pos - s.flushing_pos) = (pending s).length := by
      rw [hlen, int32_of_mem] <;> omega
    have hdata : s.buffer.read s.flushing_pos (pending s).length = pending s := by
      rw [pending, Mem.length_read]
    rw [sendbuf_free, sendbuf_flush, if_neg h0, hto]
    dsimp only
    rw [Int.toNat_natCast, hdata]
    -- the three ends of the flush differ in the cursors only
    split_ifs <;> simp [taken]

/-- A working transport is handed everything if there is nothing, or it takes all at once. -/
theorem freesAll_iff {s : Sendbuf} (hi : Inv s) {f : SendFunc} (hf : Working f) :
    FreesAll f s ↔
      pending s = [] ∨ f (pending s) (pending s).length = (pending s).length := by
  rw [FreesAll, taken_free hi, List.take_eq_self_iff]
  by_cases hnil : pending s = []
  · simp [hnil]
  · have hpos := List.length_pos_of_ne_nil hnil
    have hsent := hf (pending s) (pending s).length (by omega)
    simp only [hnil, false_or]
    omega

/-- **The last flush.**  At the end of a run without overflow `sendbuf_free` hands everything to a
working transport exactly if nothing is pending or the transport takes all in one call; it does
so for all of them exactly if no more than one byte is pending. -/
theorem free_hands_iff (buffer : Mem) (msec_max : ℤ) {buffer_size : ℤ} (h : 1 ≤ buffer_size)
    (h' : buffer_size ≤ INT_MAX) {t : Sendbuf} {ops : List Op} {es : List Ev}
    (hrun : Run SafeStep (start buffer buffer_size msec_max) ops es t) :
    (∀ f, Working f → (FreesAll f t ↔
      pending t = [] ∨ f (pending t) (pending t).length = (pending t).length)) ∧
    ((∀ f, Working f → FreesAll f t) ↔ (pending t).length ≤ 1) := by
  have hi := (run_inv hrun (inv_start buffer msec_max h h')).1
  refine ⟨fun f hf => freesAll_iff hi hf, ⟨fun hall => ?_, fun hshort f hf => ?_⟩⟩
  · -- the transport that takes a byte at a time
    have hone : Working fun _ _ => 1 := fun _ _ hn => ⟨le_rfl, hn⟩
    rcases (freesAll_iff hi hone).1 (hall _ hone) with hnil | hlen
    · simp [hnil]
    · omega
  · apply (freesAll_iff hi hf).2
    by_cases hnil : pending t = []
    · exact .inl hnil
    · have hpos := List.length_pos_of_ne_nil hnil
      have hsent := hf (pending t) (pending t).length (by omega)
      exact .inr (by omega)

/-- One byte is pending, and a transport that takes a byte at a time gets it. -/
theorem free_hands_one : FreesAll (fun _ _ => 1) (put (start .zeros 4 200) [1]) := by
  have hrun := run_first .zeros 200 (show 1 ≤ (4 : ℤ) by norm_num) (by decide) blocked
    (show ([1] : List UInt8).length ≤ (4 : ℤ) by decide)
  exact (free_hands_iff .zeros 200 (by norm_num) (by decide) hrun).2.2 (by decide) _
    fun _ _ hn => ⟨le_rfl, hn⟩

/-- Two bytes are pending, and a transport that takes one at a time does not get the second. -/
theorem free_drops :
    ∃ es t, Run SafeStep (start .zeros 4 200) [.append blocked [1, 2]] es t ∧
      pending t = [1, 2] ∧ Working (fun _ _ => 1) ∧
      (sendbuf_free (fun _ _ => 1) t).flatMap taken = [1] ∧ ¬ FreesAll (fun _ _ => 1) t := by
  have hrun := run_first .zeros 200 (show 1 ≤ (4 : ℤ) by norm_num) (by decide) blocked
    (show ([1, 2] : List UInt8).length ≤ (4 : ℤ) by decide)
  have htaken : (sendbuf_free (fun _ _ => 1) (put (start .zeros 4 200) [1, 2])).flatMap taken =
      [1] := by decide
  refine ⟨_, _, hrun, by decide, fun _ _ hn => ⟨le_rfl, hn⟩, htaken, ?_⟩
  rw [FreesAll, htaken]
  decide

end Libsendbuf
