import Glouglou.Sendbuf.Steps

/-!
# libsendbuf: capacity under any transport

Tokens of every size that an `int` can hold, and a `send_func` that answers what it likes.  The
room check is made once, before the flush, and its sum is an `int`; after a flush that completed
nothing is checked again.  So a token is stored past the buffer when the sum wraps, or when it is
larger than the buffer and the flush has nothing to send or sends it all (`Roomy`).

`capacity_iff` is about one operation on a buffer with its cursor inside, `run_capacity_iff`
about runs.  `honest_iff` is about what is refused: the room check compares with `>=`, so a token
that fills the buffer exactly is refused when the flush is blocked (`Snug`).
-/

open CInt Transducer

namespace Libsendbuf

/-- The cursor is inside the buffer; of `flushing_pos` nothing is known under such a transport. -/
structure Bounded (s : Sendbuf) : Prop where
  size_pos : 1 ≤ s.buffer_size
  size_le : s.buffer_size ≤ INT_MAX
  pos_nonneg : 0 ≤ s.buffer_pos
  pos_le : s.buffer_pos ≤ s.buffer_size

/-- A step of a live buffer, with a token of any size. -/
def AnyStep (s : Sendbuf) (op : Op) (out : List Ev) (t : Sendbuf) : Prop :=
  op.size ≤ INT_MAX ∧ exec s op = (t, out)

/-- An adder keeps to the capacity: it refuses, with the cursor where it was or at the start, or
it takes the token and all of it is in the buffer. -/
def Capacity (s : Sendbuf) : Op → Prop
  | .append f token =>
    let r := sendbuf_append f s token
    (r.1 = -1 ∧ (r.2.1.buffer_pos = s.buffer_pos ∨ r.2.1.buffer_pos = 0)) ∨
      (r.1 = token.length ∧ ∃ off, Ev.store off token.length ∈ r.2.2 ∧
        Mem.InBounds s.buffer_size off token.length)
  | .gettoken f fill =>
    match sendbuf_gettoken f s fill.length with
    | (none, t, _) => t.buffer_pos = s.buffer_pos ∨ t.buffer_pos = 0
    | (some off, _, _) => Mem.InBounds s.buffer_size off fill.length
  | .flush _ | .timer _ => True

/-- A flush has something to send and does not complete. -/
def Blocked (f : SendFunc) (s : Sendbuf) : Prop :=
  let tosend := int32 (s.buffer_pos - s.flushing_pos)
  let sent := f (s.buffer.read s.flushing_pos tosend.toNat) tosend
  s.buffer_pos ≠ 0 ∧ (sent = -1 ∨ sent < tosend)

/-- The sum of the room check does not wrap, and the token is no larger than the buffer unless
the flush before it is blocked. -/
def Roomy (s : Sendbuf) : Op → Prop
  | .append f token | .gettoken f token =>
    s.buffer_pos + token.length ≤ INT_MAX ∧ (token.length ≤ s.buffer_size ∨ Blocked f s)
  | .flush _ | .timer _ => True

/-- The effect stores inside a buffer of this size, if it stores. -/
def Ev.Stored (buffer_size : ℤ) : Ev → Prop
  | .store off size => Mem.InBounds buffer_size off size
  | _ => True

theorem bounded_start (buffer : Mem) (msec_max : ℤ) {buffer_size : ℤ} (h : 1 ≤ buffer_size)
    (h' : buffer_size ≤ INT_MAX) : Bounded (start buffer buffer_size msec_max) where
  size_pos := h
  size_le := h'
  pos_nonneg := le_rfl
  pos_le := by
    show (0 : ℤ) ≤ buffer_size
    omega

/-! ### One flush -/

/-- A flush is blocked and leaves the cursor, or completes and resets it; it stores nothing. -/
theorem flush_any (f : SendFunc) (s : Sendbuf) :
    ((Blocked f s ∧ (sendbuf_flush f s).1 = -1 ∧
        (sendbuf_flush f s).2.1.buffer_pos = s.buffer_pos) ∨
      (¬ Blocked f s ∧ (sendbuf_flush f s).1 = 0 ∧ (sendbuf_flush f s).2.1.buffer_pos = 0)) ∧
    ∀ off n, Ev.store off n ∉ (sendbuf_flush f s).2.2 := by
  by_cases h0 : s.buffer_pos = 0
  · have hflush : sendbuf_flush f s = (0, s, []) := if_pos h0
    rw [hflush]
    exact ⟨.inr ⟨fun hb => hb.1 h0, rfl, h0⟩, by simp⟩
  · unfold Blocked sendbuf_flush
    rw [if_neg h0]
    dsimp only
    generalize int32 (s.buffer_pos - s.flushing_pos) = tosend
    generalize f (s.buffer.read s.flushing_pos tosend.toNat) tosend = sent
    split_ifs with h1 h2
    · exact ⟨.inl ⟨⟨h0, .inl h1⟩, rfl, rfl⟩, by simp⟩
    · exact ⟨.inl ⟨⟨h0, .inr h2⟩, rfl, rfl⟩, by simp⟩
    · refine ⟨.inr ⟨fun hb => ?_, rfl, rfl⟩, by simp⟩
      rcases hb.2 with h | h
      · exact h1 h
      · exact h2 h

theorem flush_pos (f : SendFunc) (s : Sendbuf) :
    (sendbuf_flush f s).2.1.buffer_pos = s.buffer_pos ∨
      (sendbuf_flush f s).2.1.buffer_pos = 0 := by
  rcases (flush_any f s).1 with ⟨-, -, hu⟩ | ⟨-, -, hu⟩
  · exact .inl hu
  · exact .inr hu

/-! ### One room check -/

/-- How the room check can end: it finds room, it flushes and the flush is blocked, or it flushes
and the buffer is empty. -/
inductive Checked (f : SendFunc) (s : Sendbuf) (size : ℤ) : Bool → Sendbuf → List Ev → Prop
  | room (h : int32 (s.buffer_pos + size) < s.buffer_size) : Checked f s size true s []
  | refused {u : Sendbuf} {ev : List Ev} (h : s.buffer_size ≤ int32 (s.buffer_pos + size))
      (hb : Blocked f s) (hu : u.buffer_pos = s.buffer_pos) (hev : ∀ off n, Ev.store off n ∉ ev) :
      Checked f s size false u ev
  | flushed {u : Sendbuf} {ev : List Ev} (h : s.buffer_size ≤ int32 (s.buffer_pos + size))
      (hb : ¬ Blocked f s) (hu : u.buffer_pos = 0) (hev : ∀ off n, Ev.store off n ∉ ev) :
      Checked f s size true u ev

theorem checked {f : SendFunc} {s u : Sendbuf} {size : ℤ} {ok : Bool} {ev : List Ev}
    (h : makeRoom f s size = (ok, u, ev)) : Checked f s size ok u ev := by
  unfold makeRoom at h
  split_ifs at h with hroom
  · obtain ⟨hflush, hev⟩ := flush_any f s
    simp only [Prod.mk.injEq] at h
    obtain ⟨rfl, h⟩ := h
    rw [h] at hflush hev
    rcases hflush with ⟨hb, hr, hu⟩ | ⟨hb, hr, hu⟩
    · rw [hr]
      exact .refused hroom hb hu hev
    · rw [hr]
      exact .flushed hroom hb hu hev
  · simp only [Prod.mk.injEq] at h
    obtain ⟨rfl, rfl, rfl⟩ := h
    exact .room (not_le.1 hroom)

theorem Checked.no_store {f : SendFunc} {s u : Sendbuf} {size : ℤ} {ok : Bool} {ev : List Ev}
    (h : Checked f s size ok u ev) (off n : ℤ) : Ev.store off n ∉ ev := by
  cases h with
  | room => simp
  | refused _ _ _ hev => exact hev off n
  | flushed _ _ _ hev => exact hev off n

/-- A token that the room check lets through is inside the buffer exactly if the check was
right. -/
theorem room_iff {f : SendFunc} {s u : Sendbuf} {size : ℤ} {ok : Bool} {ev : List Ev}
    (hs : Bounded s) (h0 : 0 ≤ size) (hsize : size ≤ INT_MAX) (h : Checked f s size ok u ev) :
    (if ok then Mem.InBounds s.buffer_size u.buffer_pos size
      else u.buffer_pos = s.buffer_pos ∨ u.buffer_pos = 0) ↔
    s.buffer_pos + size ≤ INT_MAX ∧ (size ≤ s.buffer_size ∨ Blocked f s) := by
  have hp := hs.pos_nonneg
  have hl := hs.pos_le
  have hb := hs.size_le
  by_cases hsum : s.buffer_pos + size ≤ INT_MAX
  · have hcheck : int32 (s.buffer_pos + size) = s.buffer_pos + size :=
      int32_of_mem (by omega) hsum
    cases h with
    | room hroom =>
      rw [hcheck] at hroom
      exact iff_of_true ⟨hp, hroom.le⟩ ⟨hsum, .inl (by omega)⟩
    | refused hroom hblk hu => exact iff_of_true (.inl hu) ⟨hsum, .inr hblk⟩
    | flushed hroom hblk hu =>
      rw [if_pos rfl, hu]
      constructor
      · intro hin
        exact ⟨hsum, .inl (by have := hin.2; omega)⟩
      · rintro ⟨-, hle | hblk'⟩
        · exact ⟨le_rfl, by omega⟩
        · exact absurd hblk' hblk
  · -- the sum is negative after it wrapped, so the check finds room
    have hwrap : int32 (s.buffer_pos + size) = s.buffer_pos + size - 2 ^ 32 :=
      int32_of_overflow (by omega) (by unfold INT_MAX at hb hsize; omega)
    unfold INT_MAX at hb hsize
    have hpos := hs.size_pos
    cases h with
    | room hroom =>
      refine iff_of_false (fun hin => hsum ?_) fun hc => hsum hc.1
      have := hin.2
      unfold INT_MAX
      omega
    | refused hroom => omega
    | flushed hroom => omega

/-! ### One operation -/

/-- **Capacity of one operation.**  On a buffer with its cursor inside, an operation keeps to the
capacity exactly if it is roomy. -/
theorem capacity_iff {s : Sendbuf} (hs : Bounded s) {op : Op} (hsize : op.size ≤ INT_MAX) :
    Capacity s op ↔ Roomy s op := by
  cases op with
  | append f token =>
    rcases h : makeRoom f s token.length with ⟨ok, u, ev⟩
    have hroom := room_iff hs (Int.natCast_nonneg token.length) hsize (checked h)
    have hev := (checked h).no_store
    rw [Roomy, ← hroom]
    cases ok with
    | false =>
      simp only [Capacity, sendbuf_append, h]
      constructor
      · rintro (⟨-, hu⟩ | ⟨hr, -⟩)
        · exact hu
        · omega
      · exact fun hu => .inl ⟨trivial, hu⟩
    | true =>
      simp only [Capacity, sendbuf_append, h]
      constructor
      · rintro (⟨hr, -⟩ | ⟨-, off, hmem, hin⟩)
        · omega
        · -- the only store is that of the token
          rcases List.mem_append.1 hmem with hmem | hmem
          · exact absurd hmem (hev off _)
          · cases List.mem_singleton.1 hmem
            exact hin
      · exact fun hin => .inr ⟨trivial, _, List.mem_append_right _ List.mem_cons_self, hin⟩
  | gettoken f fill =>
    rcases h : makeRoom f s fill.length with ⟨ok, u, ev⟩
    have hroom := room_iff hs (Int.natCast_nonneg fill.length) hsize (checked h)
    rw [Roomy, ← hroom]
    cases ok with
    | false =>
      simp only [Capacity, sendbuf_gettoken, h]
      rfl
    | true =>
      simp only [Capacity, sendbuf_gettoken, h]
      rfl
  | flush f => exact Iff.rfl
  | timer f => exact Iff.rfl

/-- An effect that does not store stores inside. -/
theorem stored_of_no_store {ev : List Ev} (h : ∀ off n, Ev.store off n ∉ ev) (size : ℤ) :
    ∀ e ∈ ev, e.Stored size := by
  intro e he
  cases e with
  | store off n => exact absurd he (h off n)
  | _ => trivial

/-- A token that is roomy. -/
theorem bounded_token {s t : Sendbuf} {f : SendFunc} {token : List UInt8} {out : List Ev}
    (hs : Bounded s) (hsize : token.length ≤ INT_MAX) (hroomy : Roomy s (.append f token))
    (h : exec s (.append f token) = (t, out)) :
    (0 ≤ t.buffer_pos ∧ t.buffer_pos ≤ s.buffer_size) ∧ ∀ e ∈ out, e.Stored s.buffer_size := by
  rcases hroom : makeRoom f s token.length with ⟨ok, u, ev⟩
  have hin := (room_iff hs (Int.natCast_nonneg token.length) hsize (checked hroom)).2 hroomy
  have hev := stored_of_no_store (checked hroom).no_store s.buffer_size
  have hle := hs.size_le
  cases ok with
  | false =>
    rw [exec_append_refused hroom, Prod.mk.injEq] at h
    obtain ⟨rfl, rfl⟩ := h
    refine ⟨?_, hev⟩
    have hp := hs.pos_nonneg
    have hl := hs.pos_le
    rcases hin with hin | hin
    · rw [hin]
      exact ⟨hp, hl⟩
    · rw [hin]
      exact ⟨le_rfl, hp.trans hl⟩
  | true =>
    rw [exec_append_taken hroom, Prod.mk.injEq] at h
    obtain ⟨rfl, rfl⟩ := h
    obtain ⟨hu, hfit⟩ := hin
    have hcur : int32 (u.buffer_pos + token.length) = u.buffer_pos + token.length :=
      int32_of_mem (by omega) (by omega)
    refine ⟨?_, fun e he => ?_⟩
    · show 0 ≤ int32 (u.buffer_pos + token.length) ∧ int32 (u.buffer_pos + token.length) ≤ _
      rw [hcur]
      exact ⟨by omega, hfit⟩
    · simp only [List.mem_append, List.mem_cons, List.not_mem_nil, or_false] at he
      rcases he with he | rfl | rfl
      · exact hev e he
      · exact ⟨hu, hfit⟩
      · trivial

/-- A roomy operation stores inside the buffer and leaves the cursor there. -/
theorem bounded_step {s t : Sendbuf} {op : Op} {out : List Ev} (hs : Bounded s)
    (h : AnyStep s op out t) (hroomy : Roomy s op) :
    (Bounded t ∧ t.buffer_size = s.buffer_size) ∧ ∀ e ∈ out, e.Stored s.buffer_size := by
  obtain ⟨hsize, hexec⟩ := h
  have hbs : t.buffer_size = s.buffer_size := by
    rw [← buffer_size_exec s op, hexec]
  suffices h : (0 ≤ t.buffer_pos ∧ t.buffer_pos ≤ s.buffer_size) ∧
      ∀ e ∈ out, e.Stored s.buffer_size by
    refine ⟨⟨⟨?_, ?_, h.1.1, ?_⟩, hbs⟩, h.2⟩
    · rw [hbs]
      exact hs.size_pos
    · rw [hbs]
      exact hs.size_le
    · rw [hbs]
      exact h.1.2
  have hp := hs.pos_nonneg
  have hl := hs.pos_le
  have flush : ∀ f, (0 ≤ (sendbuf_flush f s).2.1.buffer_pos ∧
      (sendbuf_flush f s).2.1.buffer_pos ≤ s.buffer_size) ∧
      ∀ e ∈ (sendbuf_flush f s).2.2, e.Stored s.buffer_size := by
    intro f
    refine ⟨?_, stored_of_no_store (flush_any f s).2 _⟩
    rcases flush_pos f s with hu | hu
    · rw [hu]
      exact ⟨hp, hl⟩
    · rw [hu]
      exact ⟨le_rfl, hp.trans hl⟩
  cases op with
  | append f token => exact bounded_token hs hsize hroomy hexec
  | gettoken f fill =>
    rw [exec_gettoken] at hexec
    exact bounded_token hs hsize hroomy hexec
  | flush f =>
    rcases hflush : sendbuf_flush f s with ⟨r, u, ev⟩
    have hf := flush f
    simp only [exec, hflush, Prod.mk.injEq] at hexec hf
    obtain ⟨rfl, rfl⟩ := hexec
    exact hf
  | timer f =>
    rcases hflush : sendbuf_flush f s with ⟨r, u, ev⟩
    have hf := flush f
    simp only [exec, cb_timer, hflush, Prod.mk.injEq] at hexec hf
    obtain ⟨rfl, rfl⟩ := hexec
    refine ⟨hf.1, fun e he => ?_⟩
    rcases List.mem_append.1 he with he | he
    · exact hf.2 e he
    · rw [List.mem_singleton.1 he]
      trivial

/-! ### Runs -/

/-- A step that keeps to the capacity. -/
def CapacityStep (s : Sendbuf) (op : Op) (out : List Ev) (t : Sendbuf) : Prop :=
  AnyStep s op out t ∧ Capacity s op

/-- A step with a roomy operation. -/
def RoomyStep (s : Sendbuf) (op : Op) (out : List Ev) (t : Sendbuf) : Prop :=
  AnyStep s op out t ∧ Roomy s op

theorem run_bounded {s t : Sendbuf} {ops : List Op} {es : List Ev} (h : Run RoomyStep s ops es t)
    (hs : Bounded s) :
    (Bounded t ∧ t.buffer_size = s.buffer_size) ∧ ∀ e ∈ es, e.Stored s.buffer_size := by
  refine h.invariant_out (fun u => Bounded u ∧ u.buffer_size = s.buffer_size) _ ?_ ⟨hs, rfl⟩
  rintro u op out v ⟨hu, hb⟩ hstep
  obtain ⟨⟨hv, hvb⟩, hout⟩ := bounded_step hu hstep.1 hstep.2
  rw [hb] at hout
  exact ⟨⟨hv, hvb.trans hb⟩, hout⟩

/-- **Capacity.**  The steps of a run keep to the capacity exactly if its operations are roomy.
Then every store was inside the buffer and the cursor still is, and the next operation keeps to
the capacity exactly if it is roomy. -/
theorem run_capacity_iff (buffer : Mem) (msec_max : ℤ) {buffer_size : ℤ} (h : 1 ≤ buffer_size)
    (h' : buffer_size ≤ INT_MAX) {t : Sendbuf} {ops : List Op} {es : List Ev} :
    (Run CapacityStep (start buffer buffer_size msec_max) ops es t ↔
      Run RoomyStep (start buffer buffer_size msec_max) ops es t) ∧
    (Run RoomyStep (start buffer buffer_size msec_max) ops es t →
      (0 ≤ t.buffer_pos ∧ t.buffer_pos ≤ buffer_size) ∧ (∀ e ∈ es, e.Stored buffer_size) ∧
      ∀ op : Op, op.size ≤ INT_MAX → (Capacity t op ↔ Roomy t op)) := by
  have hs := bounded_start buffer msec_max h h'
  refine ⟨⟨fun hrun => ?_, fun hrun => ?_⟩, fun hrun => ?_⟩
  · induction hrun with
    | nil => exact .nil
    | snoc _ hstep ih =>
      exact ih.snoc ⟨hstep.1, (capacity_iff (run_bounded ih hs).1.1 hstep.1.1).1 hstep.2⟩
  · induction hrun with
    | nil => exact .nil
    | snoc hr hstep ih =>
      exact ih.snoc ⟨hstep.1, (capacity_iff (run_bounded hr hs).1.1 hstep.1.1).2 hstep.2⟩
  · obtain ⟨⟨ht, hb⟩, hes⟩ := run_bounded hrun hs
    have hpos := ht.pos_le
    rw [hb] at hpos
    exact ⟨⟨ht.pos_nonneg, hpos⟩, hes, fun op hop => capacity_iff ht hop⟩

/-- Two tokens fill a buffer, and the third one is refused. -/
theorem run_capacity_four :
    ∃ es t, Run CapacityStep (start .zeros 4 200)
      [.append blocked [1, 2], .append blocked [3], .append blocked [4, 5, 6, 7, 8]] es t := by
  have hrun : ∃ es t, Run RoomyStep (start .zeros 4 200)
      [.append blocked [1, 2], .append blocked [3], .append blocked [4, 5, 6, 7, 8]] es t :=
    ⟨_, _, Run.cons ⟨⟨by decide, rfl⟩, by decide, .inl (by decide)⟩
      (Run.cons ⟨⟨by decide, rfl⟩, by decide, .inl (by decide)⟩
        (Run.single ⟨⟨by decide, rfl⟩, by decide, .inr ⟨by decide, .inl rfl⟩⟩))⟩
  obtain ⟨es, t, hrun⟩ := hrun
  exact ⟨es, t, (run_capacity_iff .zeros 200 (by norm_num) (by decide)).1.2 hrun⟩

/-- A token larger than the buffer is stored past its end when there is nothing to flush. -/
theorem capacity_empty :
    ¬ Capacity (start .zeros 4 200) (.append blocked [1, 2, 3, 4, 5]) ∧
      Ev.store 0 5 ∈ (sendbuf_append blocked (start .zeros 4 200) [1, 2, 3, 4, 5]).2.2 := by
  refine ⟨?_, List.mem_singleton.2 rfl⟩
  rintro (⟨hr, -⟩ | ⟨-, off, hmem, hin⟩)
  · exact absurd hr (by decide)
  · cases List.mem_singleton.1 hmem
    exact absurd hin (by decide)

/-! ### Refusals -/

/-- A token is refused only if it does not fit behind the cursor and the flush did not complete;
one that fits is taken. -/
def Honest (s : Sendbuf) : Op → Prop
  | .append f token =>
    let r := (sendbuf_append f s token).1
    (r = -1 → s.buffer_size < s.buffer_pos + token.length ∧ (sendbuf_flush f s).1 = -1) ∧
      (s.buffer_pos + token.length ≤ s.buffer_size → r = token.length)
  | .gettoken f fill =>
    let r := (sendbuf_gettoken f s fill.length).1
    (r = none → s.buffer_size < s.buffer_pos + fill.length ∧ (sendbuf_flush f s).1 = -1) ∧
      (s.buffer_pos + fill.length ≤ s.buffer_size → r ≠ none)
  | .flush _ | .timer _ => True

/-- The token fills the buffer exactly, and the flush is blocked. -/
def Snug (s : Sendbuf) : Op → Prop
  | .append f token | .gettoken f token =>
    s.buffer_pos + token.length = s.buffer_size ∧ Blocked f s
  | .flush _ | .timer _ => False

/-- The cursors of any run: `buffer_pos` is an `int`, nothing more. -/
structure Cursor (buffer_size : ℤ) (s : Sendbuf) : Prop where
  size_eq : s.buffer_size = buffer_size
  le_pos : -2 ^ 31 ≤ s.buffer_pos
  pos_le : s.buffer_pos ≤ INT_MAX

/-- Every operation, whatever the transport answers, leaves the cursor an `int`. -/
theorem cursor_step {buffer_size : ℤ} {s t : Sendbuf} {op : Op} {out : List Ev}
    (hs : Cursor buffer_size s) (h : AnyStep s op out t) : Cursor buffer_size t := by
  obtain ⟨-, hexec⟩ := h
  have hsize : t.buffer_size = buffer_size := by
    rw [← hs.size_eq, ← buffer_size_exec s op, hexec]
  suffices h : t.buffer_pos = s.buffer_pos ∨ t.buffer_pos = 0 ∨ ∃ x, t.buffer_pos = int32 x by
    rcases h with h | h | ⟨x, h⟩
    · exact ⟨hsize, h ▸ hs.le_pos, h ▸ hs.pos_le⟩
    · exact ⟨hsize, by rw [h]; norm_num, by rw [h]; norm_num [INT_MAX]⟩
    · exact ⟨hsize, h ▸ le_int32 x, h ▸ int32_le x⟩
  rcases op.token_or_flush with ⟨f, token, -, hop⟩ | ⟨-, f, rfl | rfl⟩
  · rw [hop] at hexec
    rcases hroom : makeRoom f s token.length with ⟨ok, u, ev⟩
    cases ok with
    | false =>
      rw [exec_append_refused hroom, Prod.mk.injEq] at hexec
      obtain ⟨rfl, -⟩ := hexec
      cases checked hroom with
      | refused _ _ hu => exact .inl hu
    | true =>
      rw [exec_append_taken hroom, Prod.mk.injEq] at hexec
      obtain ⟨rfl, -⟩ := hexec
      exact .inr (.inr ⟨_, rfl⟩)
  · obtain rfl : (sendbuf_flush f s).2.1 = t := congrArg Prod.fst hexec
    exact (flush_pos f s).imp_right .inl
  · obtain rfl : (sendbuf_flush f s).2.1 = t := congrArg Prod.fst hexec
    exact (flush_pos f s).imp_right .inl

/-- The room check refuses a token when its end reaches the end of the buffer and the flush is
blocked; a sum that wrapped is negative and refuses nothing. -/
theorem refused_iff {f : SendFunc} {s u : Sendbuf} {size : ℤ} {ok : Bool} {ev : List Ev}
    (hpos : 1 ≤ s.buffer_size) (hs : Cursor s.buffer_size s) (h0 : 0 ≤ size)
    (hsize : size ≤ INT_MAX) (h : Checked f s size ok u ev) : ok = false ↔
      (s.buffer_size ≤ s.buffer_pos + size ∧ s.buffer_pos + size ≤ INT_MAX) ∧ Blocked f s := by
  have hle := hs.le_pos
  have hmax := hs.pos_le
  have hcheck : s.buffer_size ≤ int32 (s.buffer_pos + size) ↔
      s.buffer_size ≤ s.buffer_pos + size ∧ s.buffer_pos + size ≤ INT_MAX := by
    unfold int32 INT_MAX at *
    omega
  rw [← hcheck]
  cases h with
  | room hroom => exact iff_of_false Bool.noConfusion fun hc => absurd hc.1 (not_le.2 hroom)
  | refused hroom hb => exact iff_of_true rfl ⟨hroom, hb⟩
  | flushed hroom hb => exact iff_of_false Bool.noConfusion fun hc => hb hc.2

/-- One room check refuses only what does not fit, and lets through what fits, unless the token
fills the buffer exactly and the flush is blocked. -/
theorem honest_room {f : SendFunc} {s u : Sendbuf} {size : ℤ} {ok : Bool} {ev : List Ev}
    (hpos : 1 ≤ s.buffer_size) (hmax : s.buffer_size ≤ INT_MAX) (hs : Cursor s.buffer_size s)
    (h0 : 0 ≤ size) (hsize : size ≤ INT_MAX) (h : makeRoom f s size = (ok, u, ev)) :
    ((ok = false → s.buffer_size < s.buffer_pos + size ∧ (sendbuf_flush f s).1 = -1) ∧
      (s.buffer_pos + size ≤ s.buffer_size → ok = true)) ↔
    ¬ (s.buffer_pos + size = s.buffer_size ∧ Blocked f s) := by
  have hiff := refused_iff hpos hs h0 hsize (checked h)
  constructor
  · rintro ⟨-, hfit⟩ ⟨heq, hb⟩
    have hok := hfit heq.le
    rw [hiff.2 ⟨⟨heq.ge, heq.trans_le hmax⟩, hb⟩] at hok
    cases hok
  · intro hsnug
    constructor
    · intro hok
      obtain ⟨⟨hle, -⟩, hb⟩ := hiff.1 hok
      refine ⟨lt_of_le_of_ne hle fun heq => hsnug ⟨heq.symm, hb⟩, ?_⟩
      rcases (flush_any f s).1 with ⟨-, hr, -⟩ | ⟨hno, -⟩
      · exact hr
      · exact absurd hb hno
    · intro hfit
      by_contra hok
      obtain ⟨⟨hle, -⟩, hb⟩ := hiff.1 (Bool.eq_false_of_not_eq_true hok)
      exact hsnug ⟨le_antisymm hfit hle, hb⟩

/-- **No spurious refusal.**  In every state that a run reaches, whatever the tokens and the
transport were, an adder refuses only what does not fit, exactly if it is not the case that the
token fills the buffer exactly while the flush is blocked. -/
theorem honest_iff (buffer : Mem) (msec_max : ℤ) {buffer_size : ℤ} (h : 1 ≤ buffer_size)
    (h' : buffer_size ≤ INT_MAX) {t : Sendbuf} {ops : List Op} {es : List Ev}
    (hrun : Run AnyStep (start buffer buffer_size msec_max) ops es t) {op : Op}
    (hsize : op.size ≤ INT_MAX) : Honest t op ↔ ¬ Snug t op := by
  have ht : Cursor buffer_size t := by
    refine hrun.invariant (Cursor buffer_size) (fun _ _ _ _ hs => cursor_step hs) ⟨rfl, ?_, ?_⟩
    · show -2 ^ 31 ≤ (0 : ℤ)
      norm_num
    · show (0 : ℤ) ≤ INT_MAX
      norm_num [INT_MAX]
  obtain rfl := ht.size_eq
  cases op with
  | append f token =>
    rcases hroom : makeRoom f t token.length with ⟨ok, u, ev⟩
    have hiff := honest_room h h' ht (Int.natCast_nonneg token.length) hsize hroom
    rw [Snug, ← hiff]
    cases ok with
    | false =>
      have hne : ¬ (-1 : ℤ) = token.length := by omega
      simp [Honest, sendbuf_append, hroom, hne]
    | true =>
      have hne : ¬ (token.length : ℤ) = -1 := by omega
      simp [Honest, sendbuf_append, hroom, hne]
  | gettoken f fill =>
    rcases hroom : makeRoom f t fill.length with ⟨ok, u, ev⟩
    have hiff := honest_room h h' ht (Int.natCast_nonneg fill.length) hsize hroom
    rw [Snug, ← hiff]
    cases ok <;> simp [Honest, sendbuf_gettoken, hroom]
  | flush f => exact iff_of_true trivial id
  | timer f => exact iff_of_true trivial id

/-- A token that leaves one byte free is taken though the transport fails. -/
theorem honest_four : Honest (put (start .zeros 4 200) [1, 2]) (.append blocked [3]) := by
  have hrun : Run AnyStep (start .zeros 4 200) [.append blocked [1, 2]]
      [.store 0 2, .accept [1, 2]] (put (start .zeros 4 200) [1, 2]) :=
    Run.single ⟨by decide, rfl⟩
  refine (honest_iff .zeros 200 (by norm_num) (by decide) hrun (by decide)).2 ?_
  rintro ⟨hfull, -⟩
  exact absurd hfull (by decide)

/-- Two bytes are buffered in a buffer of four, and the next two are refused. -/
theorem honest_exact_fit :
    ∃ es t, Run AnyStep (start .zeros 4 200) [.append blocked [1, 2]] es t ∧
      t.buffer_pos + 2 = t.buffer_size ∧ (sendbuf_append blocked t [3, 4]).1 = -1 ∧
      ¬ Honest t (.append blocked [3, 4]) := by
  refine ⟨_, put (start .zeros 4 200) [1, 2], Run.single ⟨by decide, rfl⟩, rfl, rfl, ?_⟩
  rintro ⟨hrefused, -⟩
  exact absurd (hrefused rfl).1 (by decide)

end Libsendbuf
