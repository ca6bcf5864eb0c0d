import Glouglou.Sendbuf.Stream

/-!
# libsendbuf: progress

What a transport that takes at least a byte of every call makes of a buffer.  Every flush and
every turn of the timer then moves the queue by a byte (`Flushed.moved`), so what was pending
leaves it after as many of them, whatever is appended in the meantime (`latency`).  A token that
is refused has moved a byte too, so an owner that tries again is not refused forever
(`refusals`).
-/

open CInt Transducer

namespace Libsendbuf

/-- The transport took at least a byte, if it was called. -/
def Ev.Moved : Ev → Prop
  | .send _ _ _ sent => 1 ≤ sent
  | _ => True

instance (e : Ev) : Decidable e.Moved :=
  match e with
  | .send _ _ _ sent => inferInstanceAs (Decidable (1 ≤ sent))
  | .store _ _ | .accept _ | .timer_add _ | .timer_del => isTrue trivial

/-- The operation flushes, whether there is room or not. -/
def Op.flushes : Op → Bool
  | .append _ _ | .gettoken _ _ => false
  | .flush _ | .timer _ => true

/-- How often a run flushes for its own sake. -/
def flushes (ops : List Op) : ℕ := ops.countP Op.flushes

/-! ### One step -/

/-- A flush that moved took a byte, unless nothing was pending. -/
theorem Flushed.moved {s t : Sendbuf} {r : ℤ} {ev : List Ev} (h : Flushed s r t ev) (hi : Inv s)
    (hm : ∀ e ∈ ev, e.Moved) : pending s = [] ∨ 1 ≤ (ev.flatMap taken).length := by
  have hlen := length_pending hi
  cases h with
  | empty h0 => exact .inl (pending_eq_nil hi h0)
  | failed hlt =>
    have h1 : (1 : ℤ) ≤ -1 := hm _ (List.mem_singleton.2 rfl)
    omega
  | part hlt sent h0 h1 =>
    have h2 : (1 : ℤ) ≤ sent := hm _ (List.mem_singleton.2 rfl)
    refine .inr ?_
    rw [List.flatMap_singleton, taken, List.length_take]
    omega
  | whole hlt =>
    refine .inr ?_
    rw [List.flatMap_singleton, taken, List.length_take]
    omega

/-- So does every operation that flushes. -/
theorem step_moved {s t : Sendbuf} {op : Op} {out : List Ev} (hi : Inv s)
    (h : SafeStep s op out t) (hop : op.flushes = true) (hm : ∀ e ∈ out, e.Moved) :
    pending s = [] ∨ 1 ≤ (out.flatMap taken).length := by
  obtain ⟨⟨-, hexec, ha⟩, -⟩ := h
  cases op with
  | append f token => cases hop
  | gettoken f fill => cases hop
  | flush f =>
    rcases hflush : sendbuf_flush f s with ⟨r, u, ev⟩
    simp only [exec, hflush, Prod.mk.injEq] at hexec
    obtain ⟨rfl, rfl⟩ := hexec
    exact (flushed hi hflush ha).moved hi hm
  | timer f =>
    rcases hflush : sendbuf_flush f s with ⟨r, u, ev⟩
    simp only [exec, cb_timer, hflush, Prod.mk.injEq] at hexec
    obtain ⟨rfl, rfl⟩ := hexec
    have hfl := flushed hi hflush fun e he => ha e (List.mem_append_left _ he)
    rw [List.flatMap_append, List.length_append]
    apply (hfl.moved hi fun e he => hm e (List.mem_append_left _ he)).imp_right
    intro h1
    exact h1.trans (Nat.le_add_right _ _)

/-! ### Latency -/

/-- Over a run the queue gives and takes what it is given. -/
theorem run_conserves {s t : Sendbuf} {ops : List Op} {es : List Ev} (h : Run SafeStep s ops es t)
    (hi : Inv s) :
    es.flatMap taken ++ pending t = pending s ++ (es.flatMap accepted).flatten := by
  rw [Fifo.conservation (run_fifo h hi), pushed_toFifo]

/-- The transport has taken a byte for every flush, or everything that was pending. -/
theorem run_moved {s t : Sendbuf} {ops : List Op} {es : List Ev} (h : Run SafeStep s ops es t)
    (hi : Inv s) (hm : ∀ e ∈ es, e.Moved) :
    min (flushes ops) (pending s).length ≤ (es.flatMap taken).length := by
  induction h with
  | nil => exact Nat.min_le_left _ _
  | @snoc ops es u op out t hr hstep ih =>
    have hle := ih fun e he => hm e (List.mem_append_left _ he)
    rw [List.flatMap_append, List.length_append, flushes, List.countP_append]
    change min (flushes ops + _) _ ≤ _
    cases hop : op.flushes with
    | false =>
      rw [List.countP_singleton, hop, if_neg Bool.false_ne_true, Nat.add_zero]
      exact hle.trans (Nat.le_add_right _ _)
    | true =>
      rw [List.countP_singleton, hop, if_pos rfl]
      rcases step_moved (run_inv hr hi).1 hstep hop
        (fun e he => hm e (List.mem_append_right _ he)) with hnil | h1
      · -- nothing pending: all that was there has been taken
        have hcons := congrArg List.length (run_conserves hr hi)
        rw [hnil, List.append_nil, List.length_append] at hcons
        omega
      · omega

/-- **Latency.**  In every run over a transport that takes at least a byte of every call, what was
accepted up to some point has all been taken, in order and before anything else, once there
were as many flushes and turns of the timer as bytes were pending then; the size of the buffer
is always enough. -/
theorem latency (buffer : Mem) (msec_max : ℤ) {buffer_size : ℤ} (h : 1 ≤ buffer_size)
    (h' : buffer_size ≤ INT_MAX) {s t : Sendbuf} {ops ops' : List Op} {es es' : List Ev}
    (hrun : Run SafeStep (start buffer buffer_size msec_max) ops es s)
    (hrun' : Run SafeStep s ops' es' t) (hm : ∀ e ∈ es', e.Moved) :
    (pending s).length ≤ buffer_size ∧
      ((pending s).length ≤ flushes ops' →
        (es.flatMap accepted).flatten <+: (es ++ es').flatMap taken) := by
  have hi₀ := inv_start buffer msec_max h h'
  obtain ⟨hi, hsize⟩ := run_inv hrun hi₀
  have hcons := run_conserves hrun hi₀
  have hcons' := run_conserves hrun' hi
  rw [show pending (start buffer buffer_size msec_max) = [] from pending_eq_nil hi₀ rfl,
    List.nil_append] at hcons
  constructor
  · have h1 := hi.pos_le
    have h2 := hi.flushing_nonneg
    rw [hsize, show (start buffer buffer_size msec_max).buffer_size = buffer_size from rfl] at h1
    rw [length_pending hi]
    omega
  · intro hflushes
    have hmoved := run_moved hrun' hi hm
    rw [Nat.min_eq_right hflushes] at hmoved
    -- what was pending comes first among what is taken
    have hprefix : pending s <+: es'.flatMap taken :=
      List.prefix_of_prefix_length_le (List.prefix_append _ _)
        (hcons' ▸ List.prefix_append _ _) hmoved
    rw [← hcons, List.flatMap_append]
    exact (List.prefix_append_right_inj _).2 hprefix

/-- Three bytes are pending, and the transport takes one at a time. -/
theorem latency_three :
    let ops : List Op := [.append blocked [1, 2, 3]]
    let ops' : List Op := [.flush fun _ _ => 1, .append (fun _ _ => 1) [4], .timer fun _ _ => 1,
      .flush fun _ _ => 1]
    let r := execAll (start .zeros 8 200) ops
    let r' := execAll r.1 ops'
    (r.2.flatMap accepted).flatten <+: (r.2 ++ r'.2).flatMap taken := by
  have hsmall : (8 : ℤ) < 2 ^ 30 := by norm_num
  have hi := inv_start .zeros 200 (show 1 ≤ (8 : ℤ) by norm_num) (by decide)
  have hrun := safe_of_small (@run_execAll (start .zeros 8 200) [.append blocked [1, 2, 3]]
    (by decide) (by decide)) hi hsmall
  obtain ⟨hi', hsize⟩ := run_inv hrun hi
  have hrun' := safe_of_small (@run_execAll
    (execAll (start .zeros 8 200) [.append blocked [1, 2, 3]]).1
    [.flush fun _ _ => 1, .append (fun _ _ => 1) [4], .timer fun _ _ => 1, .flush fun _ _ => 1]
    (by decide) (by decide)) hi' (by rw [hsize]; exact hsmall)
  exact (latency .zeros 200 (by norm_num) (by decide) hrun hrun' (by decide)).2 (by decide)

/-! ### Refusals -/

/-- A token that is refused has moved a byte, and a byte is still pending. -/
theorem step_refused {s t : Sendbuf} {op : Op} {out : List Ev} (hi : Inv s)
    (h : SafeStep s op out t) (hop : op.flushes = false) (hno : out.flatMap accepted = [])
    (hm : ∀ e ∈ out, e.Moved) :
    1 ≤ (pending t).length ∧ (pending t).length + 1 ≤ (pending s).length := by
  obtain ⟨⟨hsize, hexec, ha⟩, hfits⟩ := h
  rcases op.token_or_flush with ⟨f, token, hlen, hop'⟩ | ⟨-, f, rfl | rfl⟩
  · unfold RoomFits at hfits
    rw [hlen] at hsize hfits
    rw [hop'] at hexec
    rcases hroom : makeRoom f s token.length with ⟨ok, u, ev⟩
    cases ok with
    | false =>
      rw [exec_append_refused hroom, Prod.mk.injEq] at hexec
      obtain ⟨rfl, rfl⟩ := hexec
      obtain ⟨hfl, -⟩ := makeRoom_cases hi (by omega) hsize hfits hroom ha
      have hfl' := hfl.resolve_right (by simp)
      have hu := hfl'.inv hi
      have hs := length_pending hi
      have ht := length_pending hu
      generalize hr : (if false = true then (0 : ℤ) else -1) = r at hfl'
      cases hfl' with
      | empty => cases hr
      | failed =>
        have h1 : (1 : ℤ) ≤ -1 := hm _ (List.mem_singleton.2 rfl)
        omega
      | part hlt sent h0 h1 =>
        have h2 : (1 : ℤ) ≤ sent := hm _ (List.mem_singleton.2 rfl)
        simp only at ht
        omega
      | whole => cases hr
    | true =>
      rw [exec_append_taken hroom, Prod.mk.injEq] at hexec
      obtain ⟨-, rfl⟩ := hexec
      simp [accepted] at hno
  · cases hop
  · cases hop

/-- A run of refused tokens moves a byte with each, and leaves a byte. -/
theorem run_refused {s t : Sendbuf} {ops : List Op} {es : List Ev} (h : Run SafeStep s ops es t)
    (hi : Inv s) (hops : ∀ op ∈ ops, op.flushes = false) (hno : es.flatMap accepted = [])
    (hm : ∀ e ∈ es, e.Moved) :
    ops = [] ∨
      (1 ≤ (pending t).length ∧ ops.length + (pending t).length ≤ (pending s).length) := by
  induction h with
  | nil => exact .inl rfl
  | @snoc ops es u op out t hr hstep ih =>
    rw [List.flatMap_append, List.append_eq_nil_iff] at hno
    obtain ⟨hpos, hlt⟩ := step_refused (run_inv hr hi).1 hstep
      (hops op (List.mem_append_right _ List.mem_cons_self)) hno.2
      fun e he => hm e (List.mem_append_right _ he)
    refine .inr ⟨hpos, ?_⟩
    rw [List.length_append, List.length_singleton]
    rcases ih (fun o ho => hops o (List.mem_append_left _ ho)) hno.1
      fun e he => hm e (List.mem_append_left _ he) with rfl | ⟨-, hle⟩
    · obtain ⟨-, rfl⟩ := hr.nil_inv
      rw [List.length_nil]
      omega
    · omega

/-- **Refusals.**  From every state that a run without overflow reaches, over a transport that
takes at least a byte of every call: of as many tokens, offered one after another, as bytes
were pending at first, and of one if none was, at least one is accepted, whatever their sizes. -/
theorem refusals (buffer : Mem) (msec_max : ℤ) {buffer_size : ℤ} (h : 1 ≤ buffer_size)
    (h' : buffer_size ≤ INT_MAX) {s t : Sendbuf} {ops ops' : List Op} {es es' : List Ev}
    (hrun : Run SafeStep (start buffer buffer_size msec_max) ops es s)
    (hrun' : Run SafeStep s ops' es' t) (hops : ∀ op ∈ ops', op.flushes = false)
    (hm : ∀ e ∈ es', e.Moved) (hmany : max 1 (pending s).length ≤ ops'.length) :
    es'.flatMap accepted ≠ [] := by
  intro hno
  have hi := (run_inv hrun (inv_start buffer msec_max h h')).1
  rcases run_refused hrun' hi hops hno hm with rfl | ⟨h1, h2⟩
  · rw [List.length_nil] at hmany
    omega
  · omega

/-- Three bytes are pending: the third token offered is accepted. -/
theorem refusals_three :
    ((execAll (execAll (start .zeros 4 200) [.append blocked [1, 2, 3]]).1
      (List.replicate 3 (.append (fun _ _ => 1) [4, 5]))).2).flatMap accepted ≠ [] := by
  have hsmall : (4 : ℤ) < 2 ^ 30 := by norm_num
  have hi := inv_start .zeros 200 (show 1 ≤ (4 : ℤ) by norm_num) (by decide)
  have hrun := safe_of_small (@run_execAll (start .zeros 4 200) [.append blocked [1, 2, 3]]
    (by decide) (by decide)) hi hsmall
  obtain ⟨hi', hsize⟩ := run_inv hrun hi
  have hrun' := safe_of_small (@run_execAll
    (execAll (start .zeros 4 200) [.append blocked [1, 2, 3]]).1
    (List.replicate 3 (.append (fun _ _ => 1) [4, 5])) (by decide) (by decide)) hi'
    (by rw [hsize]; exact hsmall)
  exact refusals .zeros 200 (by norm_num) (by decide) hrun hrun' (by decide) (by decide)
    (by decide)

end Libsendbuf
