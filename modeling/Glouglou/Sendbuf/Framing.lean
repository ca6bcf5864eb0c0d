import Glouglou.Sendbuf.Stream

/-!
# libsendbuf: datagram framing

Over a transport that takes all or nothing a live buffer is a batch queue of tokens: a call of
`send_func` is handed the tokens accepted since the last successful one, joined, and takes them
all or leaves them all (`step_batch`).  The token boundaries are nowhere in the buffer, so the
simulation relates its bytes to a list of tokens that joins to them.

`framing_iff`: every datagram is whole tokens in order, each token in one datagram, in every
run without overflow.
-/

open CInt Transducer

namespace Libsendbuf

/-- A step over a transport that takes all or nothing. -/
def DatagramStep (s : Sendbuf) (op : Op) (out : List Ev) (t : Sendbuf) : Prop :=
  Step s op out t ∧ ∀ e ∈ out, e.AllOrNothing

/-- The same, without overflow in the room check. -/
def SafeDatagramStep (s : Sendbuf) (op : Op) (out : List Ev) (t : Sendbuf) : Prop :=
  DatagramStep s op out t ∧ RoomFits s op

/-- The datagram that a call of `send_func` sent, if it sent one. -/
def datagram : Ev → List (List UInt8)
  | .send _ _ data sent => if sent = -1 then [] else [data]
  | _ => []

/-- The tokens waiting after an effect: an accepted one joins them, a successful call of
`send_func` takes them all. -/
def waiting (q : List (List UInt8)) : Ev → List (List UInt8)
  | .accept token => q ++ [token]
  | .send _ _ _ sent => if sent = -1 then q else []
  | _ => q

/-- The tokens accepted since the last successful call of `send_func`. -/
def sinceSent (es : List Ev) : List (List UInt8) := es.foldl waiting []

/-- Datagrams respect the token boundaries. -/
structure Framed (es : List Ev) : Prop where
  /-- a call is handed exactly the tokens accepted since the last successful one -/
  whole : ∀ (pre post : List Ev) (off tosend : ℤ) (data : List UInt8) (sent : ℤ),
    es = pre ++ .send off tosend data sent :: post →
      data = (sinceSent pre).flatten ∧ tosend = data.length
  /-- the datagrams that left are groups of tokens, and no token is lost or sent twice -/
  groups : ∃ groups : List (List (List UInt8)),
    es.flatMap datagram = groups.map List.flatten ∧
      groups.flatten ++ sinceSent es = es.flatMap accepted

/-- The batch operation an effect stands for. -/
def toBatch : Ev → List (Batch.Op UInt8)
  | .send _ _ data sent => [.attempt data (decide (sent ≠ -1))]
  | .accept token => [.add token]
  | _ => []

/-- An effect that neither sends, stores nor accepts is nothing to the batch queue. -/
theorem Ev.Idle.unbatched {e : Ev} (h : e.Idle) : toBatch e = [] ∧ datagram e = [] := by
  cases e <;> first | exact ⟨rfl, rfl⟩ | exact h.elim

theorem waiting_eq (q : List (List UInt8)) (e : Ev) :
    waiting q e = (toBatch e).foldl Batch.next q := by
  cases e with
  | send off tosend data sent =>
    by_cases h : sent = -1
    · simp [waiting, toBatch, Batch.next, h]
    · simp [waiting, toBatch, Batch.next, h]
  | _ => rfl

theorem sinceSent_eq (es : List Ev) :
    sinceSent es = (es.flatMap toBatch).foldl Batch.next [] := by
  unfold sinceSent
  generalize ([] : List (List UInt8)) = q
  induction es generalizing q with
  | nil => rfl
  | cons e es ih => rw [List.foldl_cons, List.flatMap_cons, List.foldl_append, ih, waiting_eq]

theorem added_toBatch (es : List Ev) :
    (es.flatMap toBatch).flatMap Batch.Op.added = es.flatMap accepted := by
  rw [List.flatMap_assoc]
  congr 1
  funext e
  cases e <;> rfl

/-- The buffer holds the tokens `q`, from its first byte on. -/
def Holds (s : Sendbuf) (q : List (List UInt8)) : Prop :=
  Inv s ∧ s.flushing_pos = 0 ∧ pending s = q.flatten

theorem Flushed.batch {s t : Sendbuf} {r : ℤ} {ev : List Ev} {q : List (List UInt8)}
    (h : Flushed s r t ev) (hq : Holds s q) (ha : ∀ e ∈ ev, e.AllOrNothing) :
    ∃ q' outs, Run Batch.Step q (ev.flatMap toBatch) outs q' ∧
      ev.flatMap datagram = outs.map List.flatten ∧ Holds t q' := by
  have hit := h.inv hq.1
  obtain ⟨-, hf, hp⟩ := hq
  cases h with
  | empty => exact ⟨q, [], .nil, rfl, hit, hf, hp⟩
  | failed hlt => exact ⟨q, [], Run.single ⟨hp, rfl, rfl⟩, rfl, hit, hf, hp⟩
  | part hlt sent h0 h1 =>
    -- a transport that takes all or nothing takes no part
    rcases ha _ (List.mem_singleton.2 rfl) with h | h <;> omega
  | whole hlt =>
    have hne : ¬ s.buffer_pos - s.flushing_pos = -1 := by omega
    refine ⟨[], [q], ?_, ?_, hit, rfl, rfl⟩
    · have hb : Batch.Step q (.attempt (pending s) true) [q] [] := ⟨hp, rfl, rfl⟩
      simpa [toBatch, hne] using Run.single hb
    · simp [datagram, hne, hp]

/-- A step over an all-or-nothing transport is a run of the batch queue. -/
theorem step_batch {s t : Sendbuf} {op : Op} {out : List Ev} {q : List (List UInt8)}
    (hq : Holds s q) (h : SafeDatagramStep s op out t) :
    ∃ q' outs, Run Batch.Step q (out.flatMap toBatch) outs q' ∧
      out.flatMap datagram = outs.map List.flatten ∧ Holds t q' := by
  obtain ⟨⟨hs, ha⟩, hfits⟩ := h
  obtain ⟨r, u, ev, hu, ht⟩ := step_cases hq.1 ⟨hs, hfits⟩
  have hev : ∀ e ∈ ev, e ∈ out := by
    intro e he
    rcases ht with ⟨-, tail, rfl, -⟩ | ⟨token, -, -, rfl⟩ <;> exact List.mem_append_left _ he
  have hu' : ∃ q' outs, Run Batch.Step q (ev.flatMap toBatch) outs q' ∧
      ev.flatMap datagram = outs.map List.flatten ∧ Holds u q' := by
    rcases hu with hu | ⟨rfl, rfl⟩
    · exact hu.batch hq fun e he => ha e (hev e he)
    · exact ⟨q, [], .nil, rfl, hq⟩
  obtain ⟨q', outs, hrun, hdat, hhold⟩ := hu'
  rcases ht with ⟨rfl, tail, rfl, htail⟩ | ⟨token, rfl, hfit, rfl⟩
  · have h1 : tail.flatMap toBatch = [] :=
      List.flatMap_eq_nil_iff.2 fun e he => (htail e he).unbatched.1
    have h2 : tail.flatMap datagram = [] :=
      List.flatMap_eq_nil_iff.2 fun e he => (htail e he).unbatched.2
    rw [List.flatMap_append, List.flatMap_append, h1, h2, List.append_nil, List.append_nil]
    exact ⟨q', outs, hrun, hdat, hhold⟩
  · refine ⟨q' ++ [token], outs, ?_, ?_, inv_put hhold.1 hfit, hhold.2.1, ?_⟩
    · have hadd : Batch.Step q' (.add token) [] (q' ++ [token]) := ⟨rfl, rfl⟩
      simpa [toBatch] using hrun.trans (Run.single hadd)
    · simpa [datagram] using hdat
    · rw [pending_put hhold.1, hhold.2.2]
      simp

/-- Every run over an all-or-nothing transport without overflow is framed. -/
theorem framed_of_safe {s t : Sendbuf} {ops : List Op} {es : List Ev}
    (h : Run SafeDatagramStep s ops es t) (h0 : Holds s []) : Framed es := by
  obtain ⟨q, outs, hrun, hdat, hhold⟩ := Run.simulate Holds toBatch
    (fun es outs => es.flatMap datagram = outs.map List.flatten) rfl
    (by intro _ _ _ _ h1 h2; rw [List.flatMap_append, List.map_append, h1, h2])
    (fun s op out t q hq hs => step_batch hq hs) h h0
  have hsound := run_sound (h.mono fun _ _ _ _ hs => ⟨hs.1.1, hs.2⟩) h0.1
  constructor
  · rintro pre post off tosend data sent rfl
    rw [List.flatMap_append, List.flatMap_cons] at hrun
    have hatt := Batch.attempt_eq hrun
    rw [← sinceSent_eq] at hatt
    have hcall := hsound (.send off tosend data sent) (by simp)
    exact ⟨hatt, hcall.2.symm⟩
  · refine ⟨outs, hdat, ?_⟩
    have hcons := Batch.conservation hrun
    rwa [Batch.run_next hrun, ← sinceSent_eq, added_toBatch, List.nil_append] at hcons

/-- The next flush after the overflow is handed nothing, with two tokens waiting. -/
theorem overflow_flush {t : Sendbuf} {buffer_size : ℤ} (h : 2 ^ 30 ≤ buffer_size)
    (h' : buffer_size ≤ INT_MAX) (hb : t.buffer_size = buffer_size) (hf : t.flushing_pos = 0)
    (hp : t.buffer_pos = 2 * buffer_size - 2 ^ 32) :
    ∃ u, DatagramStep t (.flush blocked) [.send 0 (2 * buffer_size - 2 ^ 32) [] (-1)] u ∧
      ¬ Framed (overflowEvs buffer_size ++ [.send 0 (2 * buffer_size - 2 ^ 32) [] (-1)]) := by
  refine ⟨{ t with flushing := 1 }, ⟨⟨?_, ?_, ?_⟩, ?_⟩, ?_⟩
  · show (0 : ℤ) ≤ t.buffer_size
    omega
  · rw [exec, flush_overflow h h' hf hp]
  · simp [Ev.Answered]
  · simp [Ev.AllOrNothing]
  · intro hfr
    have := (hfr.whole _ [] _ _ _ _ rfl).2
    unfold INT_MAX at h'
    simp only [List.length_nil, Nat.cast_zero] at this
    omega

/-- **Datagram framing.**  Over a transport that takes all or nothing, the datagrams of every
run without overflow are whole tokens, in order and once each; so are those of all runs exactly
for buffers smaller than `2 ^ 30`. -/
theorem framing_iff (buffer : Mem) (msec_max : ℤ) {buffer_size : ℤ} (h : 1 ≤ buffer_size)
    (h' : buffer_size ≤ INT_MAX) :
    (∀ ops es t, Run SafeDatagramStep (start buffer buffer_size msec_max) ops es t →
      Framed es) ∧
    ((∀ ops es t, Run DatagramStep (start buffer buffer_size msec_max) ops es t → Framed es) ↔
      buffer_size < 2 ^ 30) := by
  have hi := inv_start buffer msec_max h h'
  have h0 : Holds (start buffer buffer_size msec_max) [] := ⟨hi, rfl, rfl⟩
  refine ⟨fun ops es t hrun => framed_of_safe hrun h0, ⟨fun hall => ?_, ?_⟩⟩
  · by_contra hbig
    obtain ⟨t, hrun, hb, hf, hp⟩ := overflow_run buffer msec_max (by omega) h'
    obtain ⟨u, hstep, hno⟩ := overflow_flush (by omega) h' hb hf hp
    have hdat := hrun.restrict Ev.AllOrNothing (by simp [overflowEvs, Ev.AllOrNothing])
    exact hno (hall _ _ u (Run.snoc hdat hstep))
  · intro hsmall ops es t hrun
    have hall : ∀ e ∈ es, e.AllOrNothing :=
      (Run.invariant_out (fun _ => True) Ev.AllOrNothing
        (fun _ _ _ _ _ hs => ⟨trivial, hs.2⟩) hrun trivial).2
    have hsafe := safe_of_small (hrun.mono fun _ _ _ _ hs => hs.1) hi hsmall
    have hrun' : Run SafeDatagramStep (start buffer buffer_size msec_max) ops es t :=
      (hsafe.restrict Ev.AllOrNothing hall).mono fun _ _ _ _ hs => ⟨⟨hs.1.1, hs.2⟩, hs.1.2⟩
    exact framed_of_safe hrun' h0

/-- Three tokens over a transport that first fails: they leave in two datagrams. -/
theorem framing_four :
    let ops : List Op := [.append blocked [1, 2], .flush blocked, .gettoken blocked [3],
      .timer (fun _ n => n), .append blocked [4], .flush (fun _ n => n)]
    Framed (execAll (start (fun _ => 0) 4 200) ops).2 :=
  (framing_iff (fun _ => 0) 200 (by decide) (by decide)).2.2 (by decide) _ _ _
    ((run_execAll (by decide) (by decide)).restrict Ev.AllOrNothing (by decide))

/-- After two tokens of `2 ^ 30` bytes in a buffer of that size, a flush hands over nothing
although both tokens wait. -/
theorem framing_overflow :
    ∃ t, Run DatagramStep (start (fun _ => 0) (2 ^ 30) 200)
        (overflowOps (2 ^ 30) ++ [.flush blocked])
        (overflowEvs (2 ^ 30) ++ [.send 0 (2 * 2 ^ 30 - 2 ^ 32) [] (-1)]) t ∧
      ¬ Framed (overflowEvs (2 ^ 30) ++ [.send 0 (2 * 2 ^ 30 - 2 ^ 32) [] (-1)]) := by
  obtain ⟨t, hrun, hb, hf, hp⟩ := overflow_run (fun _ => 0) 200 le_rfl (by decide)
  obtain ⟨u, hstep, hno⟩ := overflow_flush le_rfl (by decide) hb hf hp
  have hdat := hrun.restrict Ev.AllOrNothing (by simp [overflowEvs, Ev.AllOrNothing])
  exact ⟨u, Run.snoc hdat hstep, hno⟩

end Libsendbuf
