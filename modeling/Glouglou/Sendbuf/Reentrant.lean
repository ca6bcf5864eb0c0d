import Glouglou.Sendbuf.Stream

/-!
# libsendbuf: a `send_func` that appends

`sendbuf_flush` promises that data can be added while it is in progress, that is by `send_func`
itself.  Here its appends fit, and it keeps to its contract (`Obedient`).

* `Flushed`, `step_inv`, `run_inv`: how such a flush can end, and the invariant of a live buffer;
* `kept_iff`: when the appended bytes are still pending afterwards; `run_conserves`: in runs where
  they are, no byte is lost;
* `run_quiet`: where `send_func` appends nothing, the runs are those of `Glouglou.Sendbuf.Basic`.
-/

open CInt Transducer

namespace Libsendbuf

namespace Reentrant

/-- Every token finds room behind those before it without a flush. -/
def Fit (buffer_size : ℤ) : ℤ → List (List UInt8) → Prop
  | _, [] => True
  | buffer_pos, token :: tokens =>
    buffer_pos + token.length < buffer_size ∧
      Fit buffer_size (buffer_pos + token.length) tokens

/-- The tokens that `send_func` appends fit, and it keeps to its contract. -/
def Obedient (f : Callback) (s : Sendbuf) : Prop :=
  Fit s.buffer_size s.buffer_pos (call f s).nested ∧
    ((call f s).sent = -1 ∨
      (0 ≤ (call f s).sent ∧ (call f s).sent ≤ int32 (s.buffer_pos - s.flushing_pos)))

/-- The operation calls `send_func`. -/
def Op.Calls (s : Sendbuf) : Op → Prop
  | .append _ token | .gettoken _ token =>
    s.buffer_size ≤ int32 (s.buffer_pos + token.length) ∧ s.buffer_pos ≠ 0
  | .flush _ | .timer _ => s.buffer_pos ≠ 0

/-- A step: the token is no larger than the buffer, the room check does not overflow, and a
`send_func` that is called is obedient. -/
def Step (s : Sendbuf) (op : Op) (out : List Ev) (t : Sendbuf) : Prop :=
  (op.size ≤ s.buffer_size ∧ s.buffer_pos + op.size ≤ INT_MAX) ∧
    (op.Calls s → Obedient op.send_func s) ∧ exec s op = (t, out)

/-! ### Tokens that fit -/

/-- A token that leaves room is stored without a flush. -/
theorem exec_append_fit {s : Sendbuf} (hi : Inv s) (f : SendFunc) {token : List UInt8}
    (h : s.buffer_pos + token.length < s.buffer_size) :
    Libsendbuf.exec s (.append f token) =
      (put s token, [.store s.buffer_pos token.length, .accept token]) := by
  have hcur := hi.cursor_of_fit h.le
  have hroom : Libsendbuf.makeRoom f s token.length = (true, s, []) := by
    rw [Libsendbuf.makeRoom, hcur, if_neg (not_le.2 h)]
  rw [exec_append_taken hroom, hcur, List.nil_append, put]

/-- Tokens that fit are stored one behind the other. -/
theorem execAll_fit {s : Sendbuf} (hi : Inv s) (f : SendFunc) {tokens : List (List UInt8)}
    (h : Fit s.buffer_size s.buffer_pos tokens) :
    ∃ ev, execAll s (tokens.map (.append f)) = (tokens.foldl put s, ev) ∧
      ev.flatMap accepted = tokens ∧ ev.flatMap taken = [] := by
  induction tokens generalizing s with
  | nil => exact ⟨[], rfl, rfl, rfl⟩
  | cons token tokens ih =>
    obtain ⟨hroom, hfit⟩ := h
    obtain ⟨ev, hev, hacc, htaken⟩ := ih (inv_put hi hroom.le) hfit
    refine ⟨[.store s.buffer_pos token.length, .accept token] ++ ev, ?_, ?_, ?_⟩
    · rw [List.map_cons, execAll, exec_append_fit hi f hroom, hev]
      rfl
    · simp [accepted, hacc]
    · simp [taken, htaken]

theorem foldl_put {s : Sendbuf} (hi : Inv s) {tokens : List (List UInt8)}
    (h : Fit s.buffer_size s.buffer_pos tokens) :
    Inv (tokens.foldl put s) ∧ pending (tokens.foldl put s) = pending s ++ tokens.flatten := by
  induction tokens generalizing s with
  | nil => exact ⟨hi, by simp⟩
  | cons token tokens ih =>
    obtain ⟨hroom, hfit⟩ := h
    obtain ⟨hu, hpend⟩ := ih (inv_put hi hroom.le) hfit
    refine ⟨hu, ?_⟩
    rw [List.foldl_cons, hpend, pending_put hi, List.flatten_cons, List.append_assoc]

theorem foldl_put_cursors (s : Sendbuf) (tokens : List (List UInt8)) :
    (tokens.foldl put s).buffer_size = s.buffer_size ∧
      (tokens.foldl put s).flushing_pos = s.flushing_pos ∧
      s.buffer_pos ≤ (tokens.foldl put s).buffer_pos := by
  induction tokens generalizing s with
  | nil => exact ⟨rfl, rfl, le_rfl⟩
  | cons token tokens ih =>
    obtain ⟨hsize, hfl, hle⟩ := ih (put s token)
    have hput : (put s token).buffer_pos = s.buffer_pos + token.length := rfl
    exact ⟨hsize, hfl, by rw [List.foldl_cons]; omega⟩

/-! ### Flushing -/

/-- How a flush can end: there was nothing to send, or the transport failed, took a part or took
everything, and the appended tokens are behind what was pending, until the cursors are reset.
Indices: the result and the structure. -/
inductive Flushed (s : Sendbuf) (c : Call) : ℤ → Sendbuf → Prop
  | empty (h : s.buffer_pos = 0) : Flushed s c 0 s
  | failed (h : s.flushing_pos < s.buffer_pos) (hsent : c.sent = -1) :
      Flushed s c (-1) (c.nested.foldl put { s with flushing := 1 })
  | part (h : s.flushing_pos < s.buffer_pos) (h₀ : 0 ≤ c.sent)
      (hlt : c.sent < s.buffer_pos - s.flushing_pos) :
      Flushed s c (-1)
        (let u := c.nested.foldl put { s with flushing := 1 }
         { u with flushing_pos := u.flushing_pos + c.sent })
  | whole (h : s.flushing_pos < s.buffer_pos)
      (hsent : c.sent = s.buffer_pos - s.flushing_pos) :
      Flushed s c 0
        { c.nested.foldl put { s with flushing := 1 } with
          buffer_pos := 0, flushing := 0, flushing_pos := 0 }

/-- What `send_func` was handed and what it appended, in the effects of a flush. -/
structure Seen (s : Sendbuf) (c : Call) (ev : List Ev) : Prop where
  accepted_eq : ev.flatMap accepted = if s.buffer_pos = 0 then [] else c.nested
  taken_eq : ev.flatMap taken = (pending s).take c.sent.toNat

theorem flushed {f : Callback} {s t : Sendbuf} {r : ℤ} {ev : List Ev} (hi : Inv s)
    (ho : s.buffer_pos ≠ 0 → Obedient f s) (h : sendbuf_flush f s = (r, t, ev)) :
    Flushed s (call f s) r t ∧ Seen s (call f s) ev := by
  by_cases h0 : s.buffer_pos = 0
  · simp only [sendbuf_flush, if_pos h0, Prod.mk.injEq] at h
    obtain ⟨rfl, rfl, rfl⟩ := h
    refine ⟨.empty h0, by rw [if_pos h0]; rfl, ?_⟩
    rw [pending_eq_nil hi h0, List.take_nil]
    rfl
  · obtain ⟨hfit, hsent⟩ := ho h0
    have hlt : s.flushing_pos < s.buffer_pos := hi.cursors.resolve_right fun hc => h0 hc.2
    have hf := hi.flushing_nonneg
    have hp := hi.pos_le
    have hs := hi.size_le
    have hto : int32 (s.buffer_pos - s.flushing_pos) = s.buffer_pos - s.flushing_pos :=
      int32_of_mem (by omega) (by omega)
    rw [hto] at hsent
    have hi' : Inv { s with flushing := 1 } := { hi with }
    obtain ⟨ev', hev, hacc, htaken⟩ := execAll_fit hi' (answer f) hfit
    have hcur := (foldl_put_cursors { s with flushing := 1 } (call f s).nested).2.1
    have hcall : f (s.buffer.read s.flushing_pos (int32 (s.buffer_pos - s.flushing_pos)).toNat)
        (int32 (s.buffer_pos - s.flushing_pos)) = call f s := rfl
    simp only [sendbuf_flush, if_neg h0, hcall, hev] at h
    rw [hto] at h
    have hseen : Seen s (call f s) (ev' ++ [.send s.flushing_pos (s.buffer_pos - s.flushing_pos)
        (s.buffer.read s.flushing_pos (s.buffer_pos - s.flushing_pos).toNat) (call f s).sent]) := by
      refine ⟨?_, ?_⟩
      · rw [if_neg h0, List.flatMap_append, hacc]
        exact List.append_nil _
      · rw [List.flatMap_append, htaken]
        exact List.append_nil _
    split_ifs at h with h1 h2
    · obtain ⟨rfl, rfl, rfl⟩ := by simpa only [Prod.mk.injEq] using h
      exact ⟨.failed hlt h1, hseen⟩
    · obtain ⟨rfl, rfl, rfl⟩ := by simpa only [Prod.mk.injEq] using h
      obtain ⟨h3, -⟩ := hsent.resolve_left h1
      rw [int32_of_mem (by rw [hcur]; dsimp only; omega) (by rw [hcur]; dsimp only; omega)]
      exact ⟨.part hlt h3 h2, hseen⟩
    · obtain ⟨rfl, rfl, rfl⟩ := by simpa only [Prod.mk.injEq] using h
      obtain ⟨-, h3⟩ := hsent.resolve_left h1
      exact ⟨.whole hlt (by omega), hseen⟩

namespace Flushed

variable {s t : Sendbuf} {c : Call} {r : ℤ}

theorem inv (h : Flushed s c r t) (hi : Inv s)
    (hfit : s.buffer_pos ≠ 0 → Fit s.buffer_size s.buffer_pos c.nested) :
    Inv t ∧ t.buffer_size = s.buffer_size := by
  have hi' : Inv { s with flushing := 1 } := { hi with }
  have hf := hi.flushing_nonneg
  have hs := hi.size_pos
  obtain ⟨hsize, hcur, hle⟩ := foldl_put_cursors { s with flushing := 1 } c.nested
  cases h with
  | empty => exact ⟨hi, rfl⟩
  | failed hlt => exact ⟨(foldl_put hi' (hfit (by omega))).1, hsize⟩
  | part hlt h0 h1 =>
    have hu := (foldl_put hi' (hfit (by omega))).1
    refine ⟨{ hu with flushing_nonneg := ?_, cursors := ?_ }, hsize⟩
    · dsimp only at hcur ⊢
      omega
    · dsimp only at hcur hle ⊢
      omega
  | whole hlt =>
    have hu := (foldl_put hi' (hfit (by omega))).1
    refine ⟨{ hu with
      flushing_nonneg := le_rfl
      cursors := Or.inr ⟨rfl, rfl⟩
      pos_le := ?_ }, hsize⟩
    show (0 : ℤ) ≤ (c.nested.foldl put { s with flushing := 1 }).buffer_size
    rw [hsize]
    dsimp only
    omega

theorem eq_zero (h : Flushed s c r t) (hr : r ≠ -1) : r = 0 ∧ t.buffer_pos = 0 := by
  cases h with
  | empty h => exact ⟨rfl, h⟩
  | failed => exact absurd rfl hr
  | part => exact absurd rfl hr
  | whole => exact ⟨rfl, rfl⟩

end Flushed

/-! ### Whole operations -/

theorem flush_inv {s u : Sendbuf} {f : Callback} {ev : List Ev} (hi : Inv s)
    (ho : s.buffer_pos ≠ 0 → Obedient f s) (h : (sendbuf_flush f s).2 = (u, ev)) :
    Inv u ∧ u.buffer_size = s.buffer_size := by
  obtain rfl : (sendbuf_flush f s).2.1 = u := congrArg Prod.fst h
  exact (flushed hi ho rfl).1.inv hi fun h0 => (ho h0).1

/-- What an operation does before it stores a token: at most one flush. -/
def Prepared (s : Sendbuf) (op : Op) (u : Sendbuf) (ev : List Ev) : Prop :=
  ((s.buffer_pos ≠ 0 → op.Calls s) ∧ (sendbuf_flush op.send_func s).2 = (u, ev)) ∨
    (u = s ∧ ev = [])

theorem Prepared.inv {s u : Sendbuf} {op : Op} {ev : List Ev} (h : Prepared s op u ev)
    (hi : Inv s) (ho : op.Calls s → Obedient op.send_func s) :
    Inv u ∧ u.buffer_size = s.buffer_size := by
  rcases h with ⟨hcalls, hflush⟩ | ⟨rfl, -⟩
  · exact flush_inv hi (fun h0 => ho (hcalls h0)) hflush
  · exact ⟨hi, rfl⟩

theorem append_cases {s t : Sendbuf} {f : Callback} {token : List UInt8} {out : List Ev}
    (hi : Inv s) (h : Step s (.append f token) out t) :
    ∃ u ev, Prepared s (.append f token) u ev ∧
      ((t = u ∧ out = ev) ∨ (t = put u token ∧ u.buffer_pos + token.length ≤ u.buffer_size ∧
        out = ev ++ [.store u.buffer_pos token.length, .accept token])) := by
  obtain ⟨⟨hsize, hfits⟩, ho, hexec⟩ := h
  rcases hroom : makeRoom f s token.length with ⟨ok, u, ev⟩
  obtain ⟨hflush, hfit⟩ := makeRoom_cases hi.pos_nonneg (Int.natCast_nonneg token.length) hsize
    hfits (fun hcalls r hr hne =>
      have hfl := (flushed hi (fun h0 => ho ⟨hcalls, h0⟩) hr).1
      ⟨(hfl.eq_zero hne).2, (hfl.inv hi fun h0 => (ho ⟨hcalls, h0⟩).1).2⟩) hroom
  have hprep : Prepared s (.append f token) u ev := by
    rcases hflush with ⟨hcalls, r, hr, -⟩ | ⟨-, hno⟩
    · exact .inl ⟨fun h0 => ⟨hcalls, h0⟩, congrArg Prod.snd hr⟩
    · exact .inr hno
  refine ⟨u, ev, hprep, ?_⟩
  cases ok with
  | false =>
    rw [exec_refused hroom, Prod.mk.injEq] at hexec
    exact .inl ⟨hexec.1.symm, hexec.2.symm⟩
  | true =>
    rw [exec_taken hroom, Prod.mk.injEq] at hexec
    obtain ⟨rfl, rfl⟩ := hexec
    have hu := (hprep.inv hi ho).1
    exact .inr ⟨by rw [put, hu.cursor_of_fit (hfit rfl)], hfit rfl, rfl⟩

/-- An operation flushes at most once, and after that stores at most one token, which fits. -/
theorem step_cases {s t : Sendbuf} {op : Op} {out : List Ev} (hi : Inv s)
    (h : Step s op out t) :
    ∃ u ev, Prepared s op u ev ∧
      ((t = u ∧ ∃ tail, out = ev ++ tail ∧ ∀ e ∈ tail, e.Idle) ∨
        ∃ token, t = put u token ∧ u.buffer_pos + token.length ≤ u.buffer_size ∧
          out = ev ++ [.store u.buffer_pos token.length, .accept token]) := by
  cases op with
  | append f token =>
    obtain ⟨u, ev, hprep, ⟨rfl, rfl⟩ | htoken⟩ := append_cases hi h
    · exact ⟨_, _, hprep, .inl ⟨rfl, [], by simp, by simp⟩⟩
    · exact ⟨u, ev, hprep, .inr ⟨token, htoken⟩⟩
  | gettoken f fill =>
    obtain ⟨hsize, ho, hexec⟩ := h
    rw [exec_gettoken] at hexec
    obtain ⟨u, ev, hprep, ⟨rfl, rfl⟩ | htoken⟩ := append_cases hi ⟨hsize, ho, hexec⟩
    · exact ⟨_, _, hprep, .inl ⟨rfl, [], by simp, by simp⟩⟩
    · exact ⟨u, ev, hprep, .inr ⟨fill, htoken⟩⟩
  | flush f =>
    exact ⟨t, out, .inl ⟨id, h.2.2⟩, .inl ⟨rfl, [], by simp, by simp⟩⟩
  | timer f =>
    obtain ⟨rfl, rfl⟩ := Prod.mk.inj h.2.2
    exact ⟨_, _, .inl ⟨id, rfl⟩, .inl ⟨rfl, _, rfl, by simp [Ev.Idle]⟩⟩

/-- The invariant is kept, whatever fits being appended during the flushes. -/
theorem step_inv {s t : Sendbuf} {op : Op} {out : List Ev} (hi : Inv s) (h : Step s op out t) :
    Inv t ∧ t.buffer_size = s.buffer_size := by
  obtain ⟨u, ev, hprep, ht⟩ := step_cases hi h
  exact inv_of_put (hprep.inv hi h.2.1) (ht.imp And.left fun ⟨token, ht, hfit, _⟩ =>
    ⟨token, ht, hfit⟩)

theorem run_inv {s t : Sendbuf} {ops : List Op} {es : List Ev} (h : Run Step s ops es t)
    (hi : Inv s) : Inv t ∧ t.buffer_size = s.buffer_size := by
  refine h.invariant (fun u => Inv u ∧ u.buffer_size = s.buffer_size) ?_ ⟨hi, rfl⟩
  intro u op out v hu hs
  obtain ⟨hv, hb⟩ := step_inv hu.1 hs
  exact ⟨hv, hb.trans hu.2⟩

/-! ### What is kept -/

/-- After a flush the bytes that were pending and not sent are pending, and behind them those of
every append that was accepted during the flush. -/
def Kept (f : Callback) (s : Sendbuf) : Prop :=
  pending (sendbuf_flush f s).2.1 =
    (pending s).drop (call f s).sent.toNat ++ ((sendbuf_flush f s).2.2.flatMap accepted).flatten

/-- `send_func` appends something and takes all that it was offered. -/
def Lossy (f : Callback) (s : Sendbuf) : Prop :=
  s.buffer_pos ≠ 0 ∧ (call f s).sent = s.buffer_pos - s.flushing_pos ∧
    (call f s).nested.flatten ≠ []

theorem kept_iff_not_lossy {s : Sendbuf} (hi : Inv s) {f : Callback}
    (ho : s.buffer_pos ≠ 0 → Obedient f s) : Kept f s ↔ ¬ Lossy f s := by
  rcases hflush : sendbuf_flush f s with ⟨r, t, ev⟩
  obtain ⟨hfl, hseen⟩ := flushed hi ho hflush
  have hi' : Inv { s with flushing := 1 } := { hi with }
  have hlen := length_pending hi
  rw [Kept, hflush, hseen.accepted_eq]
  dsimp only
  generalize hc : call f s = c at hfl
  -- what is pending while `send_func` runs
  have hpend : s.buffer_pos ≠ 0 → pending (c.nested.foldl put { s with flushing := 1 }) =
      pending s ++ c.nested.flatten := fun h0 =>
    (foldl_put hi' (hc ▸ (ho h0).1)).2
  cases hfl with
  | empty h0 =>
    rw [if_pos h0, pending_eq_nil hi h0, List.drop_nil]
    exact iff_of_true rfl fun hl => hl.1 h0
  | failed hlt hsent =>
    have h0 : s.buffer_pos ≠ 0 := by have := hi.flushing_nonneg; omega
    rw [if_neg h0, hpend h0, hsent]
    refine iff_of_true rfl fun hl => ?_
    have := hl.2.1
    rw [hc] at this
    omega
  | part hlt h1 h2 =>
    have h0 : s.buffer_pos ≠ 0 := by have := hi.flushing_nonneg; omega
    obtain ⟨-, hfp, hle⟩ := foldl_put_cursors { s with flushing := 1 } c.nested
    rw [if_neg h0, pending_advance _ h1 (by rw [hfp]; dsimp only at hle ⊢; omega), hpend h0,
      List.drop_append_of_le_length (by omega)]
    refine iff_of_true rfl fun hl => ?_
    have := hl.2.1
    rw [hc] at this
    omega
  | whole hlt hsent =>
    have h0 : s.buffer_pos ≠ 0 := by have := hi.flushing_nonneg; omega
    have hdrop : (pending s).drop c.sent.toNat = [] := List.drop_eq_nil_of_le (by omega)
    rw [if_neg h0, hdrop, List.nil_append]
    have hnil : ∀ u : Sendbuf, pending { u with
        buffer_pos := 0, flushing := 0, flushing_pos := 0 } = [] := fun _ => rfl
    rw [hnil, Lossy, hc]
    constructor
    · intro hkept hl
      exact hl.2.2 hkept.symm
    · intro hno
      by_contra hne
      exact hno ⟨h0, hsent, fun h => hne h.symm⟩

/-- A flush that is not lossy neither loses nor doubles a byte. -/
theorem flush_conserves {s u : Sendbuf} {f : Callback} {ev : List Ev} (hi : Inv s)
    (ho : s.buffer_pos ≠ 0 → Obedient f s) (hno : ¬ Lossy f s)
    (h : (sendbuf_flush f s).2 = (u, ev)) :
    ev.flatMap taken ++ pending u = pending s ++ (ev.flatMap accepted).flatten := by
  have hkept := (kept_iff_not_lossy hi ho).2 hno
  rw [Kept, h] at hkept
  rcases hflush : sendbuf_flush f s with ⟨r, t, ev'⟩
  have hseen := (flushed hi ho hflush).2.taken_eq
  obtain ⟨rfl, rfl⟩ : t = u ∧ ev' = ev := by simpa [hflush] using h
  rw [hseen, hkept, ← List.append_assoc, List.take_append_drop]

/-- A step whose call of `send_func`, if it makes one, is not lossy. -/
def KeepingStep (s : Sendbuf) (op : Op) (out : List Ev) (t : Sendbuf) : Prop :=
  Step s op out t ∧ (op.Calls s → ¬ Lossy op.send_func s)

theorem step_conserves {s t : Sendbuf} {op : Op} {out : List Ev} (hi : Inv s)
    (h : KeepingStep s op out t) :
    out.flatMap taken ++ pending t = pending s ++ (out.flatMap accepted).flatten := by
  obtain ⟨hstep, hno⟩ := h
  obtain ⟨u, ev, hprep, ht⟩ := step_cases hi hstep
  have hiu := (hprep.inv hi hstep.2.1).1
  have hu : ev.flatMap taken ++ pending u = pending s ++ (ev.flatMap accepted).flatten := by
    rcases hprep with ⟨hcalls, hflush⟩ | ⟨rfl, rfl⟩
    · apply flush_conserves hi (fun h0 => hstep.2.1 (hcalls h0)) ?_ hflush
      intro hl
      exact hno (hcalls hl.1) hl
    · simp
  rcases ht with ⟨rfl, tail, rfl, htail⟩ | ⟨token, rfl, -, rfl⟩
  · have h1 : tail.flatMap taken = [] :=
      List.flatMap_eq_nil_iff.2 fun e he => (htail e he).quiet.2.1
    have h2 : tail.flatMap accepted = [] :=
      List.flatMap_eq_nil_iff.2 fun e he => (htail e he).quiet.2.2
    rw [List.flatMap_append, List.flatMap_append, h1, h2, List.append_nil, List.append_nil, hu]
  · have h1 : [Ev.store u.buffer_pos token.length, .accept token].flatMap taken = [] := rfl
    have h2 : [Ev.store u.buffer_pos token.length, .accept token].flatMap accepted = [token] := rfl
    rw [List.flatMap_append, List.flatMap_append, h1, h2, List.append_nil, pending_put hiu,
      ← List.append_assoc, hu, List.flatten_append, List.append_assoc, List.flatten_singleton]

/-- In a run without a lossy flush, what was sent, followed by what is pending, is what was
accepted, by the owner of the buffer or by `send_func`. -/
theorem run_conserves {s t : Sendbuf} {ops : List Op} {es : List Ev}
    (h : Run KeepingStep s ops es t) (hi : Inv s) :
    es.flatMap taken ++ pending t = pending s ++ (es.flatMap accepted).flatten := by
  induction h with
  | nil => simp
  | snoc hr hstep ih =>
    have hu := (run_inv (hr.mono fun _ _ _ _ h => h.1) hi).1
    rw [List.flatMap_append, List.flatMap_append, List.append_assoc, step_conserves hu hstep,
      ← List.append_assoc, ih, List.flatten_append, List.append_assoc]

/-- **Data added during a flush.**  After any run, a flush whose `send_func` appends tokens that
fit accepts them all, and keeps their bytes exactly if it is not the case that `send_func` takes
all it was offered and some of them has a byte. -/
theorem kept_iff (buffer : Mem) (msec_max : ℤ) {buffer_size : ℤ} (h : 1 ≤ buffer_size)
    (h' : buffer_size ≤ INT_MAX) {t : Sendbuf} {ops : List Op} {es : List Ev}
    (hrun : Run Step (start buffer buffer_size msec_max) ops es t) {f : Callback}
    (ho : t.buffer_pos ≠ 0 → Obedient f t) :
    (t.buffer_pos ≠ 0 → (sendbuf_flush f t).2.2.flatMap accepted = (call f t).nested) ∧
      (Kept f t ↔ ¬ Lossy f t) := by
  have hi := (run_inv hrun (inv_start buffer msec_max h h')).1
  refine ⟨fun h0 => ?_, kept_iff_not_lossy hi ho⟩
  rcases hflush : sendbuf_flush f t with ⟨r, u, ev⟩
  rw [(flushed hi ho hflush).2.accepted_eq, if_neg h0]

/-- A `send_func` that appends a byte and answers `sent`. -/
def appending (sent : ℤ) : Callback := fun _ _ => ⟨[[3]], sent⟩

/-- Two bytes in a buffer of eight. -/
theorem run_two (f : Callback) : Run Step (start .zeros 8 200) [.append f [1, 2]]
    [.store 0 2, .accept [1, 2]] (put (start .zeros 8 200) [1, 2]) := by
  refine Run.single ⟨⟨?_, ?_⟩, ?_, rfl⟩
  · show (2 : ℤ) ≤ 8
    norm_num
  · show (0 : ℤ) + 2 ≤ INT_MAX
    norm_num [INT_MAX]
  rintro ⟨hfull, -⟩
  exact absurd hfull (by decide)

theorem obedient_two {sent : ℤ} (h0 : 0 ≤ sent) (h : sent ≤ 2) :
    Obedient (appending sent) (put (start .zeros 8 200) [1, 2]) :=
  ⟨⟨by decide, trivial⟩, .inr ⟨h0, h⟩⟩

/-- One of the two bytes is sent, and the byte appended meanwhile is kept behind the other. -/
theorem kept_part : Kept (appending 1) (put (start .zeros 8 200) [1, 2]) := by
  refine (kept_iff .zeros 200 (by norm_num) (by decide) (run_two (appending 1))
    fun _ => obedient_two (by norm_num) (by norm_num)).2.2 ?_
  rintro ⟨-, hsent, -⟩
  exact absurd hsent (by decide)

/-- Both bytes are sent, and the byte appended meanwhile is lost, though its append returned its
size. -/
theorem not_kept_whole :
    ∃ es t, Run Step (start .zeros 8 200) [.append (appending 2) [1, 2]] es t ∧
      Obedient (appending 2) t ∧
      (sendbuf_flush (appending 2) t).2.2.flatMap accepted = [[3]] ∧
      pending (sendbuf_flush (appending 2) t).2.1 = [] ∧ ¬ Kept (appending 2) t := by
  have haccepted : (sendbuf_flush (appending 2) (put (start .zeros 8 200) [1, 2])).2.2.flatMap
      accepted = [[3]] := by decide
  have hpending : pending (sendbuf_flush (appending 2) (put (start .zeros 8 200) [1, 2])).2.1 =
      [] := by decide
  refine ⟨_, _, run_two _, obedient_two (by norm_num) (by norm_num), haccepted, hpending, ?_⟩
  intro hkept
  rw [Kept, haccepted, hpending] at hkept
  exact absurd (congrArg List.length hkept) (by simp)

/-! ### A `send_func` that appends nothing -/

/-- The call of `send_func` is among the effects of an operation that makes it. -/
theorem mem_exec_of_calls {s : Sendbuf} {op : Op} (h : op.Calls s) :
    ∀ e ∈ (sendbuf_flush op.send_func s).2.2, e ∈ (exec s op).2 := by
  have adder : ∀ f token, s.buffer_size ≤ int32 (s.buffer_pos + List.length token) →
      ∀ e ∈ (sendbuf_flush f s).2.2, e ∈ (exec s (.append f token)).2 := by
    intro f token hroom e he
    rcases hr : makeRoom f s token.length with ⟨ok, u, ev⟩
    obtain rfl : (sendbuf_flush f s).2.2 = ev := by
      rw [makeRoom, if_pos hroom] at hr
      exact congrArg (fun r => r.2.2) hr
    cases ok with
    | false => rwa [exec_refused hr]
    | true =>
      rw [exec_taken hr]
      exact List.mem_append_left _ he
  cases op with
  | append f token => exact adder f token h.1
  | gettoken f fill =>
    rw [exec_gettoken]
    exact adder f fill h.1
  | flush f => exact fun e he => he
  | timer f => exact fun e he => List.mem_append_left _ he

/-- A step of `Glouglou.Sendbuf.Basic` is a step here. -/
theorem step_quiet {s t : Sendbuf} {op : Libsendbuf.Op} {out : List Ev}
    (h : SafeStep s op out t) : Step s (ofOp op) out t := by
  obtain ⟨⟨hsize, hexec, ha⟩, hfits⟩ := h
  rw [← size_ofOp] at hsize
  rw [RoomFits, ← size_ofOp] at hfits
  rw [← exec_quiet] at hexec
  refine ⟨⟨hsize, hfits⟩, fun hcalls => ?_, hexec⟩
  have hmem := mem_exec_of_calls hcalls
  rw [hexec] at hmem
  obtain ⟨f, hf⟩ : ∃ f, (ofOp op).send_func = quiet f := by
    cases op <;> exact ⟨_, rfl⟩
  have h0 : s.buffer_pos ≠ 0 := by
    cases op with
    | append => exact hcalls.2
    | gettoken => exact hcalls.2
    | flush => exact hcalls
    | timer => exact hcalls
  rw [hf] at hmem ⊢
  refine ⟨trivial, ?_⟩
  -- the call is in the effects, and there it was answered
  have hsend : Ev.send s.flushing_pos (int32 (s.buffer_pos - s.flushing_pos))
      (s.buffer.read s.flushing_pos (int32 (s.buffer_pos - s.flushing_pos)).toNat)
      (call (quiet f) s).sent ∈ (sendbuf_flush (quiet f) s).2.2 := by
    rw [flush_quiet]
    unfold Libsendbuf.sendbuf_flush
    rw [if_neg h0]
    dsimp only
    split_ifs <;> exact List.mem_singleton.2 rfl
  exact ha _ (hmem _ hsend)

/-- The states of `Glouglou.Sendbuf.Basic` are reached here too. -/
theorem run_quiet {s t : Sendbuf} {ops : List Libsendbuf.Op} {es : List Ev}
    (h : Run SafeStep s ops es t) : Run Step s (ops.map ofOp) es t := by
  induction h with
  | nil => exact .nil
  | snoc _ hstep ih =>
    rw [List.map_append]
    exact ih.snoc (step_quiet hstep)

end Reentrant

end Libsendbuf
