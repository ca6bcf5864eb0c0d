import Glouglou.Sendbuf.Stream

/-!
# libsendbuf: regions that are filled later

`sendbuf_gettoken` hands out a region of the buffer, and nothing says when its caller writes to it.
Here a region stays open until its caller fills it, several may be open at once, and they are
filled in any order while tokens go on being added.

The buffer as it will be when all regions are filled is `Held.settled`.  As long as no region is
open when `send_func` is called (`HeldStep`), it goes through the states of a buffer whose
regions are filled at once, with the same calls of `send_func` (`run_settled`), and so the
stream is the same (`regions_stream`).
-/

open CInt Transducer

namespace Libsendbuf

/-- An open region: its offset, and what will be written there. -/
structure Hole where
  off : ℤ
  fill : List UInt8

/-- Where the region ends. -/
def Hole.stop (h : Hole) : ℤ := h.off + h.fill.length

/-- A buffer and the regions that are open, in the order in which they were handed out. -/
structure Held where
  sbuf : Sendbuf
  holes : List Hole

/-- What happens to such a buffer; the caller of `sendbuf_gettoken` knows what it will write, and
`fill i` writes it to the region that was opened as the `i`-th of those still open. -/
inductive HeldOp
  | append (send_func : SendFunc) (token : List UInt8)
  | gettoken (send_func : SendFunc) (data : List UInt8)
  | fill (i : ℕ)
  | flush (send_func : SendFunc)
  | timer (send_func : SendFunc)

/-- The operation with the region filled at once; filling is then nothing. -/
def HeldOp.atOnce : HeldOp → Option Op
  | .append f token => some (.append f token)
  | .gettoken f data => some (.gettoken f data)
  | .fill .. => none
  | .flush f => some (.flush f)
  | .timer f => some (.timer f)

/-- One operation and its effects; there has to be a region to fill. -/
def heldExec (d : Held) : HeldOp → Option (Held × List Ev)
  | .append f token =>
    let r := exec d.sbuf (.append f token)
    some (⟨r.1, d.holes⟩, r.2)
  | .gettoken f data =>
    match sendbuf_gettoken f d.sbuf data.length with
    | (none, sbuf, ev) => some (⟨sbuf, d.holes⟩, ev)
    | (some off, sbuf, ev) => some (⟨sbuf, d.holes ++ [⟨off, data⟩]⟩, ev ++ [.accept data])
  | .fill i =>
    match d.holes[i]? with
    | none => none
    | some h =>
      some (⟨{ d.sbuf with buffer := d.sbuf.buffer.write h.off h.fill }, d.holes.eraseIdx i⟩,
        [.store h.off h.fill.length])
  | .flush f =>
    let r := exec d.sbuf (.flush f)
    some (⟨r.1, d.holes⟩, r.2)
  | .timer f =>
    let r := exec d.sbuf (.timer f)
    some (⟨r.1, d.holes⟩, r.2)

/-- The effect is a call of `send_func`. -/
def Ev.sends : Ev → Bool
  | .send _ _ _ _ => true
  | _ => false

/-- The effect is not a store. -/
def Ev.seen : Ev → Bool
  | .store _ _ => false
  | _ => true

/-- A step: the token is no larger than the buffer, the room check does not overflow, the
transport keeps to its contract, and is not called while a region is open. -/
def HeldStep (d : Held) (op : HeldOp) (out : List Ev) (d' : Held) : Prop :=
  heldExec d op = some (d', out) ∧
    (∀ o ∈ op.atOnce, o.size ≤ d.sbuf.buffer_size ∧ RoomFits d.sbuf o) ∧
    (∀ e ∈ out, e.Answered) ∧ (d.holes ≠ [] → ∀ e ∈ out, e.sends = false)

/-- The memory when all open regions are filled. -/
def settle (m : Mem) (holes : List Hole) : Mem :=
  holes.foldl (fun m h => m.write h.off h.fill) m

/-- The buffer when all open regions are filled. -/
def Held.settled (d : Held) : Sendbuf := { d.sbuf with buffer := settle d.sbuf.buffer d.holes }

/-- The open regions lie one behind the other in front of the cursor. -/
structure Held.Inv (d : Held) : Prop where
  inv : Libsendbuf.Inv d.sbuf
  sorted : d.holes.Pairwise fun h k => h.stop ≤ k.off
  nonneg : ∀ h ∈ d.holes, 0 ≤ h.off
  le_pos : ∀ h ∈ d.holes, h.stop ≤ d.sbuf.buffer_pos

/-! ### Filling -/

/-- A write behind the open regions does not meet them. -/
theorem settle_write (m : Mem) {holes : List Hole} {a : ℤ} (bs : List UInt8)
    (h : ∀ k ∈ holes, k.stop ≤ a) :
    settle (m.write a bs) holes = (settle m holes).write a bs := by
  induction holes generalizing m with
  | nil => rfl
  | cons k holes ih =>
    rw [settle, List.foldl_cons, Mem.write_comm m (h k List.mem_cons_self)]
    exact ih _ fun k' hk' => h k' (List.mem_cons_of_mem _ hk')

/-- Filling one region early. -/
theorem settle_eraseIdx (m : Mem) {holes : List Hole} {i : ℕ} {hole : Hole}
    (hs : holes.Pairwise fun h k => h.stop ≤ k.off) (h : holes[i]? = some hole) :
    settle (m.write hole.off hole.fill) (holes.eraseIdx i) = settle m holes := by
  induction holes generalizing m i with
  | nil => cases h
  | cons k holes ih =>
    rw [List.pairwise_cons] at hs
    cases i with
    | zero =>
      cases h
      rfl
    | succ i =>
      rw [List.getElem?_cons_succ] at h
      have hk := hs.1 _ (List.mem_of_getElem? h)
      rw [List.eraseIdx_cons_succ, settle, List.foldl_cons, Mem.write_comm m hk]
      exact ih _ hs.2 h

/-! ### The same buffer with its regions filled -/

/-- The invariant says nothing about what is in the buffer. -/
theorem inv_buffer {s : Sendbuf} {m : Mem} : Inv { s with buffer := m } ↔ Inv s :=
  ⟨fun h => ⟨h.size_pos, h.size_le, h.flushing_nonneg, h.cursors, h.pos_le⟩,
    fun h => ⟨h.size_pos, h.size_le, h.flushing_nonneg, h.cursors, h.pos_le⟩⟩

/-- A flush that calls nobody has nothing to send. -/
theorem flush_quiet {f : SendFunc} {s u : Sendbuf} {r : ℤ} {ev : List Ev}
    (h : sendbuf_flush f s = (r, u, ev)) (hq : ∀ e ∈ ev, e.sends = false) : s.buffer_pos = 0 := by
  by_contra h0
  rw [sendbuf_flush, if_neg h0] at h
  dsimp only at h
  split_ifs at h <;> cases h <;> exact absurd (hq _ (List.mem_singleton.2 rfl)) (by simp [Ev.sends])

section Settled

variable {d : Held} {f : SendFunc} {u : Sendbuf} {ev : List Ev}

/-- A flush does to the filled buffer what it does to this one. -/
theorem flush_settled {r : ℤ} (h : sendbuf_flush f d.sbuf = (r, u, ev))
    (hq : d.holes ≠ [] → ∀ e ∈ ev, e.sends = false) :
    sendbuf_flush f d.settled = (r, Held.settled ⟨u, d.holes⟩, ev) ∧
      (d.holes = [] ∨ u = d.sbuf) := by
  obtain ⟨s, holes⟩ := d
  by_cases hn : holes = []
  · subst hn
    exact ⟨h, .inl rfl⟩
  · have h0 := flush_quiet h (hq hn)
    rw [sendbuf_flush, if_pos h0] at h
    cases h
    exact ⟨if_pos h0, .inr rfl⟩

/-- So does a room check. -/
theorem makeRoom_settled {size : ℤ} {ok : Bool} (h : makeRoom f d.sbuf size = (ok, u, ev))
    (hq : d.holes ≠ [] → ∀ e ∈ ev, e.sends = false) :
    makeRoom f d.settled size = (ok, Held.settled ⟨u, d.holes⟩, ev) ∧
      (d.holes = [] ∨ u = d.sbuf) := by
  unfold makeRoom at h ⊢
  by_cases hroom : d.sbuf.buffer_size ≤ int32 (d.sbuf.buffer_pos + size)
  · rw [if_pos hroom] at h
    rw [if_pos (show d.settled.buffer_size ≤ int32 (d.settled.buffer_pos + size) from hroom)]
    rcases hflush : sendbuf_flush f d.sbuf with ⟨r, u', ev'⟩
    rw [hflush] at h
    cases h
    obtain ⟨hset, hu⟩ := flush_settled hflush hq
    exact ⟨by rw [hset], hu⟩
  · rw [if_neg hroom] at h
    cases h
    exact ⟨if_neg hroom, .inr rfl⟩

end Settled

/-- The regions stay in front of a cursor that was not moved, or was moved with none open. -/
theorem Held.Inv.stop_le {d : Held} (hi : d.Inv) {u : Sendbuf} (h : d.holes = [] ∨ u = d.sbuf) :
    ∀ k ∈ d.holes, k.stop ≤ u.buffer_pos := by
  intro k hk
  rcases h with h | rfl
  · rw [h] at hk
    cases hk
  · exact hi.le_pos k hk

theorem Held.Inv.over {d : Held} (hi : d.Inv) {u : Sendbuf}
    (hu : Libsendbuf.Inv (Held.settled ⟨u, d.holes⟩)) (h : ∀ k ∈ d.holes, k.stop ≤ u.buffer_pos) :
    Held.Inv ⟨u, d.holes⟩ :=
  ⟨inv_buffer.1 hu, hi.sorted, hi.nonneg, h⟩

/-- A step is one of the filled buffer, with the same effects but for its stores; filling a region
is none, and stays in the buffer. -/
def Matched (d d' : Held) (op : HeldOp) (out : List Ev) : Prop :=
  match op.atOnce with
  | none => d'.settled = d.settled ∧ out.filter Ev.seen = [] ∧ StoresInBounds d.sbuf.buffer_size out
  | some o => ∃ out', SafeStep d.settled o out' d'.settled ∧
      out'.filter Ev.seen = out.filter Ev.seen ∧ out ⊆ out'

theorem fill_matched {d d' : Held} {i : ℕ} {out : List Ev} (hi : d.Inv)
    (h : HeldStep d (.fill i) out d') : d'.Inv ∧ Matched d d' (.fill i) out := by
  have hexec := h.1
  rcases hget : d.holes[i]? with _ | hole
  · simp [heldExec, hget] at hexec
  · simp only [heldExec, hget, Option.some.injEq, Prod.mk.injEq] at hexec
    obtain ⟨rfl, rfl⟩ := hexec
    have hsub := List.eraseIdx_sublist d.holes i
    refine ⟨⟨⟨hi.inv.size_pos, hi.inv.size_le, hi.inv.flushing_nonneg, hi.inv.cursors,
      hi.inv.pos_le⟩, hi.sorted.sublist hsub, fun k hk => hi.nonneg k (hsub.subset hk),
      fun k hk => hi.le_pos k (hsub.subset hk)⟩, ?_, rfl, ?_⟩
    · unfold Held.settled
      rw [settle_eraseIdx _ hi.sorted hget]
    · intro off size he
      cases List.mem_singleton.1 he
      have hmem := List.mem_of_getElem? hget
      exact ⟨hi.nonneg _ hmem, (hi.le_pos _ hmem).trans hi.inv.pos_le⟩

section Token

variable {d : Held} {f : SendFunc} {token : List UInt8} {u : Sendbuf} {ev : List Ev}

/-- After a room check that found room the token fits behind the cursor, and the regions are in
front of it. -/
theorem room_taken (hi : d.Inv) (hlen : token.length ≤ d.sbuf.buffer_size)
    (hfits : d.sbuf.buffer_pos + token.length ≤ INT_MAX)
    (h : makeRoom f d.sbuf token.length = (true, u, ev)) (ha : ∀ e ∈ ev, e.Answered)
    (hq : d.holes ≠ [] → ∀ e ∈ ev, e.sends = false) :
    0 ≤ u.buffer_pos ∧ int32 (u.buffer_pos + token.length) = u.buffer_pos + token.length ∧
      ∀ k ∈ d.holes, k.stop ≤ u.buffer_pos := by
  obtain ⟨hfl, hfit⟩ := makeRoom_cases hi.inv (by omega) hlen hfits h ha
  have hu : Libsendbuf.Inv u := by
    rcases hfl with hfl | ⟨-, rfl, -⟩
    · exact hfl.inv hi.inv
    · exact hi.inv
  have h1 := hu.pos_nonneg
  have h2 := hu.size_le
  have h3 := hfit rfl
  exact ⟨h1, int32_of_mem (by omega) (by omega), hi.stop_le (makeRoom_settled h hq).2⟩

/-- A token appended, behind the open regions. -/
theorem append_matched {d' : Held} {out : List Ev} (hi : d.Inv)
    (h : HeldStep d (.append f token) out d') : d'.Inv ∧ Matched d d' (.append f token) out := by
  obtain ⟨hexec, hop, ha, hq⟩ := h
  obtain ⟨hlen, hfits⟩ := hop _ rfl
  rcases hroom : makeRoom f d.sbuf token.length with ⟨ok, u, ev⟩
  cases ok with
  | false =>
    simp only [heldExec, exec_append_refused hroom, Option.some.injEq, Prod.mk.injEq] at hexec
    obtain ⟨rfl, rfl⟩ := hexec
    obtain ⟨hset, hu⟩ := makeRoom_settled hroom hq
    have hstep : SafeStep d.settled (.append f token) ev (Held.settled ⟨u, d.holes⟩) :=
      ⟨⟨hlen, exec_append_refused hset, ha⟩, hfits⟩
    exact ⟨hi.over (step_inv (inv_buffer.2 hi.inv) hstep).1 (hi.stop_le hu), _, hstep, rfl,
      List.Subset.refl _⟩
  | true =>
    simp only [heldExec, exec_append_taken hroom, Option.some.injEq, Prod.mk.injEq] at hexec
    obtain ⟨rfl, rfl⟩ := hexec
    have hev : ∀ e ∈ ev, e ∈ ev ++ [.store u.buffer_pos token.length, .accept token] :=
      fun e he => List.mem_append_left _ he
    have hq' : d.holes ≠ [] → ∀ e ∈ ev, e.sends = false := fun hn e he => hq hn e (hev e he)
    obtain ⟨hset, -⟩ := makeRoom_settled hroom hq'
    obtain ⟨-, hcur, hholes⟩ := room_taken hi hlen hfits hroom (fun e he => ha e (hev e he)) hq'
    have hexec' := exec_append_taken hset
    rw [show (Held.settled ⟨u, d.holes⟩).buffer.write (Held.settled ⟨u, d.holes⟩).buffer_pos token =
      settle (u.buffer.write u.buffer_pos token) d.holes from (settle_write _ _ hholes).symm]
      at hexec'
    have hstep : SafeStep d.settled (.append f token) _ _ := ⟨⟨hlen, hexec', ha⟩, hfits⟩
    refine ⟨hi.over (step_inv (inv_buffer.2 hi.inv) hstep).1 fun k hk => ?_, _, hstep, rfl,
      List.Subset.refl _⟩
    show _ ≤ int32 (u.buffer_pos + token.length)
    rw [hcur]
    exact (hholes k hk).trans (by omega)

/-- A region opened, behind the open ones. -/
theorem gettoken_matched {d' : Held} {out : List Ev} (hi : d.Inv)
    (h : HeldStep d (.gettoken f token) out d') :
    d'.Inv ∧ Matched d d' (.gettoken f token) out := by
  obtain ⟨hexec, hop, ha, hq⟩ := h
  obtain ⟨hlen, hfits⟩ := hop _ rfl
  rcases hroom : makeRoom f d.sbuf token.length with ⟨ok, u, ev⟩
  cases ok with
  | false =>
    simp only [heldExec, sendbuf_gettoken, hroom, Option.some.injEq, Prod.mk.injEq] at hexec
    obtain ⟨rfl, rfl⟩ := hexec
    obtain ⟨hset, hu⟩ := makeRoom_settled hroom hq
    have hstep : SafeStep d.settled (.gettoken f token) ev (Held.settled ⟨u, d.holes⟩) :=
      ⟨⟨hlen, (exec_gettoken _ _ _).trans (exec_append_refused hset), ha⟩, hfits⟩
    exact ⟨hi.over (step_inv (inv_buffer.2 hi.inv) hstep).1 (hi.stop_le hu), _, hstep, rfl,
      List.Subset.refl _⟩
  | true =>
    simp only [heldExec, sendbuf_gettoken, hroom, Option.some.injEq, Prod.mk.injEq] at hexec
    obtain ⟨rfl, rfl⟩ := hexec
    have hev : ∀ e ∈ ev, e ∈ ev ++ [.accept token] := fun e he => List.mem_append_left _ he
    have hq' : d.holes ≠ [] → ∀ e ∈ ev, e.sends = false := fun hn e he => hq hn e (hev e he)
    obtain ⟨hset, -⟩ := makeRoom_settled hroom hq'
    obtain ⟨hpos, hcur, hholes⟩ :=
      room_taken hi hlen hfits hroom (fun e he => ha e (hev e he)) hq'
    have hsettle : settle u.buffer (d.holes ++ [⟨u.buffer_pos, token⟩]) =
        (settle u.buffer d.holes).write u.buffer_pos token := List.foldl_append
    have hexec' := (exec_gettoken _ _ _).trans (exec_append_taken hset)
    rw [show (Held.settled ⟨u, d.holes⟩).buffer.write (Held.settled ⟨u, d.holes⟩).buffer_pos token =
      settle u.buffer (d.holes ++ [⟨u.buffer_pos, token⟩]) from hsettle.symm] at hexec'
    have ha' : ∀ e ∈ ev ++ [.store u.buffer_pos token.length, .accept token], e.Answered := by
      intro e he
      rcases List.mem_append.1 he with he | he
      · exact ha e (hev e he)
      · simp only [List.mem_cons, List.not_mem_nil, or_false] at he
        rcases he with rfl | rfl <;> trivial
    have hstep : SafeStep d.settled (.gettoken f token) _ _ := ⟨⟨hlen, hexec', ha'⟩, hfits⟩
    have hd' : Libsendbuf.Inv { u with buffer_pos := int32 (u.buffer_pos + token.length) } :=
      inv_buffer.1 (step_inv (inv_buffer.2 hi.inv) hstep).1
    refine ⟨⟨hd', ?_, ?_, ?_⟩, _, hstep, ?_, ?_⟩
    · rw [List.pairwise_append]
      refine ⟨hi.sorted, List.pairwise_singleton _ _, fun k hk k' hk' => ?_⟩
      rw [List.mem_singleton.1 hk']
      exact hholes k hk
    · intro k hk
      rcases List.mem_append.1 hk with hk | hk
      · exact hi.nonneg k hk
      · rw [List.mem_singleton.1 hk]
        exact hpos
    · intro k hk
      show _ ≤ int32 (u.buffer_pos + token.length)
      rw [hcur]
      rcases List.mem_append.1 hk with hk | hk
      · exact (hholes k hk).trans (by omega)
      · rw [List.mem_singleton.1 hk]
        exact le_rfl
    · rw [List.filter_append, List.filter_append]
      rfl
    · exact fun e he => List.mem_append.2 <|
        (List.mem_append.1 he).imp_right (List.mem_cons_of_mem _)

end Token

/-- A flush, or a turn of the timer. -/
theorem flush_matched {d d' : Held} {f : SendFunc} {op : HeldOp}
    (hop : op = .flush f ∨ op = .timer f) {out : List Ev} (hi : d.Inv)
    (h : HeldStep d op out d') : d'.Inv ∧ Matched d d' op out := by
  obtain ⟨hexec, hops, ha, hq⟩ := h
  rcases hflush : sendbuf_flush f d.sbuf with ⟨r, u, ev⟩
  rcases hop with rfl | rfl
  · simp only [heldExec, exec, hflush, Option.some.injEq, Prod.mk.injEq] at hexec
    obtain ⟨rfl, rfl⟩ := hexec
    obtain ⟨hset, hu⟩ := flush_settled hflush hq
    have hstep : SafeStep d.settled (.flush f) ev (Held.settled ⟨u, d.holes⟩) := by
      refine ⟨⟨(hops _ rfl).1, ?_, ha⟩, (hops _ rfl).2⟩
      rw [exec, hset]
    exact ⟨hi.over (step_inv (inv_buffer.2 hi.inv) hstep).1 (hi.stop_le hu), _, hstep, rfl,
      List.Subset.refl _⟩
  · simp only [heldExec, exec, cb_timer, hflush, Option.some.injEq, Prod.mk.injEq] at hexec
    obtain ⟨rfl, rfl⟩ := hexec
    obtain ⟨hset, hu⟩ := flush_settled hflush
      fun hn e he => hq hn e (List.mem_append_left _ he)
    have hstep : SafeStep d.settled (.timer f) (ev ++ [.timer_add u.ev_timer_tv])
        (Held.settled ⟨u, d.holes⟩) := by
      refine ⟨⟨(hops _ rfl).1, ?_, ha⟩, (hops _ rfl).2⟩
      rw [exec, cb_timer, hset]
      rfl
    exact ⟨hi.over (step_inv (inv_buffer.2 hi.inv) hstep).1 (hi.stop_le hu), _, hstep, rfl,
      List.Subset.refl _⟩

theorem step_matched {d d' : Held} {op : HeldOp} {out : List Ev} (hi : d.Inv)
    (h : HeldStep d op out d') : d'.Inv ∧ Matched d d' op out := by
  cases op with
  | append f token => exact append_matched hi h
  | gettoken f data => exact gettoken_matched hi h
  | fill i => exact fill_matched hi h
  | flush f => exact flush_matched (.inl rfl) hi h
  | timer f => exact flush_matched (.inr rfl) hi h

/-! ### Runs -/

/-- A run is one of the filled buffer, in which every region is filled at once. -/
theorem run_settled {d d' : Held} {ops : List HeldOp} {es : List Ev} (h : Run HeldStep d ops es d')
    (hi : d.Inv) : d'.Inv ∧ ∃ es',
      Run SafeStep d.settled (ops.filterMap HeldOp.atOnce) es' d'.settled ∧
        es'.filter Ev.seen = es.filter Ev.seen := by
  induction h with
  | nil => exact ⟨hi, [], .nil, rfl⟩
  | @snoc ops es u op out t _ hstep ih =>
    obtain ⟨hu, es', hrun, hseen⟩ := ih
    obtain ⟨ht, hmatch⟩ := step_matched hu hstep
    refine ⟨ht, ?_⟩
    unfold Matched at hmatch
    rw [List.filterMap_append, List.filter_append]
    rcases hop : op.atOnce with _ | o
    · rw [hop] at hmatch
      obtain ⟨hset, hnone, -⟩ := hmatch
      rw [List.filterMap_cons_none hop, List.filterMap_nil, List.append_nil, hset, hnone,
        List.append_nil]
      exact ⟨es', hrun, hseen⟩
    · rw [hop] at hmatch
      obtain ⟨out', hstep', hsame, -⟩ := hmatch
      rw [List.filterMap_cons_some hop, List.filterMap_nil]
      exact ⟨es' ++ out', hrun.snoc hstep', by rw [List.filter_append, hseen, hsame]⟩

/-- Every store of a run is inside the buffer. -/
theorem run_stores {d d' : Held} {ops : List HeldOp} {es : List Ev} (h : Run HeldStep d ops es d')
    (hi : d.Inv) : StoresInBounds d.sbuf.buffer_size es := by
  have hinv := Run.invariant_out (fun u : Held => u.Inv ∧ u.sbuf.buffer_size = d.sbuf.buffer_size)
    (fun e => ∀ off size, e = .store off size → Mem.InBounds d.sbuf.buffer_size off size) ?_ h
    ⟨hi, rfl⟩
  · exact fun off size he => hinv.2 _ he off size rfl
  · rintro u op out v ⟨hu, hsize⟩ hstep
    obtain ⟨hv, hmatch⟩ := step_matched hu hstep
    unfold Matched at hmatch
    rcases hop : op.atOnce with _ | o
    · rw [hop] at hmatch
      obtain ⟨hset, -, hst⟩ := hmatch
      refine ⟨⟨hv, (congrArg Sendbuf.buffer_size hset).trans hsize⟩, ?_⟩
      rintro e he off size rfl
      exact hsize ▸ hst off size he
    · rw [hop] at hmatch
      obtain ⟨out', hstep', -, hsub⟩ := hmatch
      have hu' : Inv u.settled := inv_buffer.2 hu.inv
      refine ⟨⟨hv, (step_inv hu' hstep').2.trans hsize⟩, ?_⟩
      rintro e he off size rfl
      exact hsize ▸ step_sound hu' hstep' _ (hsub he)

/-- What a stream is made of is not in the stores. -/
theorem flatMap_seen {β : Type*} (g : Ev → List β) (hg : ∀ off size, g (.store off size) = [])
    (es : List Ev) : (es.filter Ev.seen).flatMap g = es.flatMap g := by
  induction es with
  | nil => rfl
  | cons e es ih =>
    rw [List.filter_cons, List.flatMap_cons]
    by_cases hseen : e.seen = true
    · rw [if_pos hseen, List.flatMap_cons, ih]
    · rw [if_neg hseen, ih]
      cases e with
      | store off size => rw [hg, List.nil_append]
      | _ => exact absurd rfl hseen

/-- **Regions.**  Tokens may be written to their regions late and in any order, while others are
added, as long as every region is filled before `send_func` is called: the run then has the
effects, but for its stores, of the run that fills each region at once, and leads to the same
buffer when the last region is filled.  So what was taken, followed by what is pending, is what was
accepted, and every store landed in the buffer. -/
theorem regions_stream (buffer : Mem) (msec_max : ℤ) {buffer_size : ℤ} (h : 1 ≤ buffer_size)
    (h' : buffer_size ≤ INT_MAX) {d : Held} {ops : List HeldOp} {es : List Ev}
    (hrun : Run HeldStep ⟨start buffer buffer_size msec_max, []⟩ ops es d) :
    (∃ es', Run SafeStep (start buffer buffer_size msec_max) (ops.filterMap HeldOp.atOnce) es'
      d.settled ∧ es'.filter Ev.seen = es.filter Ev.seen) ∧
    (d.holes = [] → d.settled = d.sbuf) ∧
    es.flatMap taken ++ pending d.settled = (es.flatMap accepted).flatten ∧
    StoresInBounds buffer_size es := by
  have hi₀ := inv_start buffer msec_max h h'
  have hi : Held.Inv ⟨start buffer buffer_size msec_max, []⟩ :=
    ⟨hi₀, .nil, by simp, by simp⟩
  obtain ⟨-, es', hrun', hseen⟩ := run_settled hrun hi
  refine ⟨⟨es', hrun', hseen⟩, fun hnil => ?_, ?_, run_stores hrun hi⟩
  · obtain ⟨sbuf, holes⟩ := d
    obtain rfl : holes = [] := hnil
    rfl
  · have hstream := (integrity_of_safe hrun' hi₀ (pending_eq_nil hi₀ rfl)).1
    rw [← flatMap_seen taken (fun _ _ => rfl) es, ← flatMap_seen accepted (fun _ _ => rfl) es,
      ← hseen, flatMap_seen taken fun _ _ => rfl, flatMap_seen accepted fun _ _ => rfl]
    exact hstream

/-- Two regions are opened, a token is added, the second region is filled, then the first, and
all is sent. -/
theorem regions_stream_two :
    ∃ es d, Run HeldStep ⟨start .zeros 8 200, []⟩ [.gettoken blocked [1, 2], .gettoken blocked [3],
        .append blocked [4], .fill 1, .fill 0, .flush fun _ n => n] es d ∧
      es.flatMap taken ++ pending d.settled = [1, 2, 3, 4] := by
  have fits : ∀ (n : ℤ) {size : ℤ}, n ≤ 8 → size ≤ 8 → n + size ≤ INT_MAX := by
    intro n size h1 h2
    unfold INT_MAX
    omega
  have hrun : ∃ es d, Run HeldStep ⟨start .zeros 8 200, []⟩ [.gettoken blocked [1, 2],
      .gettoken blocked [3], .append blocked [4], .fill 1, .fill 0, .flush fun _ n => n] es d ∧
      es.flatMap accepted = [[1, 2], [3], [4]] := by
    refine ⟨_, _, Run.cons ⟨rfl, ?_, ?_, ?_⟩ (Run.cons ⟨rfl, ?_, ?_, ?_⟩
      (Run.cons ⟨rfl, ?_, ?_, ?_⟩ (Run.cons ⟨rfl, ?_, ?_, ?_⟩ (Run.cons ⟨rfl, ?_, ?_, ?_⟩
      (Run.single ⟨rfl, ?_, ?_, ?_⟩))))), rfl⟩
    all_goals first
      | decide
      | (rintro o ⟨⟩; exact ⟨by decide, fits _ (by decide) (by decide)⟩)
      | (rintro o ⟨⟩)
  obtain ⟨es, d, hrun, hacc⟩ := hrun
  refine ⟨es, d, hrun, ?_⟩
  rw [(regions_stream .zeros 200 (by norm_num) (by decide) hrun).2.2.1, hacc]
  rfl

end Libsendbuf
