import Glouglou.Lib.Run
import Glouglou.Websock.Receive

/-!
# libwebsock: the receiver is the message machine

A byte that does not complete its frame is silent, one that does has the effect of the machine on
the frame (`byte_pending`, `byte_frame`).  As long as the loop is not left, it does not matter in
which pieces the bytes come (`receive_outcome`); so over any stream of frames the receiver does
what the machine does on them, in whatever pieces the stream is read (`receive_pieces`).
-/

open CString Transducer

namespace Libwebsock

/-- The receiver takes a byte, with what `malloc` returns, and its loop goes on. -/
def Step (st : ClientState) (i : UInt8 × Mem) (out : List Ev) (st' : ClientState) : Prop :=
  recvByte st i.1 i.2 = .ok (st', out, false)

/-- The machine takes a frame. -/
def Accept (sent : Bool) (a : Msgs) (x : List UInt8) (out : List Ev) (a' : Msgs) : Prop :=
  a.closed = false ∧ IsFrame x ∧ x.length ≤ 2 ^ 31 ∧ a.accept sent x = (a', out)

/-- A client that has done the handshake. -/
def fresh (sent : Bool) : ClientState := ⟨false, sent, false, none, [], none⟩

/-- The calls of `libwebsock_handle_recv`, each with the input that has come since the last. -/
def receive (malloc : ℕ → Mem) (n : ℕ) (state : ClientState) : List (List UInt8) → Result
  | [] => .ok (state, [])
  | piece :: pieces =>
    match libwebsock_handle_recv malloc n state piece with
    | .error e => .error e
    | .ok r =>
      match receive malloc (n + piece.length) r.1 pieces with
      | .error e => .error e
      | .ok r' => .ok (r'.1, r.2 ++ r'.2)

/-! ### The pieces do not matter -/

/-- The bytes with what `malloc` returns at each of them. -/
def paired (malloc : ℕ → Mem) : ℕ → List UInt8 → List (UInt8 × Mem)
  | _, [] => []
  | n, b :: l => (b, malloc n) :: paired malloc (n + 1) l

theorem paired_append (malloc : ℕ → Mem) (n : ℕ) (l l' : List UInt8) :
    paired malloc n (l ++ l') = paired malloc n l ++ paired malloc (n + l.length) l' := by
  induction l generalizing n with
  | nil => rfl
  | cons b l ih =>
    rw [List.cons_append, paired, paired, ih, List.length_cons, List.cons_append,
      Nat.add_assoc, Nat.add_comm 1]

theorem map_paired (malloc : ℕ → Mem) (n : ℕ) (l : List UInt8) :
    (paired malloc n l).map Prod.fst = l := by
  induction l generalizing n with
  | nil => rfl
  | cons b l ih => rw [paired, List.map_cons, ih]

theorem paired_eq_nil {malloc : ℕ → Mem} {n : ℕ} {l : List UInt8} (h : paired malloc n l = []) :
    l = [] := by
  rw [← map_paired malloc n l, h]
  rfl

/-- What was done before a result. -/
def prepend (out : List Ev) : Result → Result
  | .error e => .error e
  | .ok r => .ok (r.1, out ++ r.2)

/-- The result of the last byte. -/
def finish (out : List Ev) : Except Fault (ClientState × List Ev × Bool) → Result
  | .error e => .error e
  | .ok (state, evs, _) => .ok (state, out ++ evs)

/-- The result of a loop that is not left before the last byte. -/
def Outcome (st : ClientState) (is : List (UInt8 × Mem)) (r : Result) : Prop :=
  (is = [] ∧ r = .ok (st, [])) ∨
    ∃ is' i out st', is = is' ++ [i] ∧ Run Step st is' out st' ∧
      r = finish out (recvByte st' i.1 i.2)

theorem Outcome.of_run {st st' : ClientState} {is : List (UInt8 × Mem)} {out : List Ev}
    (h : Run Step st is out st') : Outcome st is (.ok (st', out)) := by
  cases h with
  | nil => exact .inl ⟨rfl, rfl⟩
  | snoc hrun hstep =>
    refine .inr ⟨_, _, _, _, rfl, hrun, ?_⟩
    rw [show recvByte _ _ _ = _ from hstep, finish]

/-- Before the last bytes there is a run. -/
theorem Outcome.split {st : ClientState} {is is' : List (UInt8 × Mem)} {r : Result}
    (h : Outcome st (is ++ is') r) (hne : is' ≠ []) :
    ∃ out st' r', Run Step st is out st' ∧ Outcome st' is' r' ∧ r = prepend out r' := by
  rcases h with ⟨hnil, -⟩ | ⟨js, i, out, st', heq, hrun, rfl⟩
  · exact absurd (List.append_eq_nil_iff.1 hnil).2 hne
  · obtain ⟨ks, k, rfl⟩ := List.eq_nil_or_concat' is' |>.resolve_left hne
    rw [← List.append_assoc] at heq
    obtain ⟨rfl, hk⟩ := List.append_inj' heq rfl
    obtain rfl : k = i := List.singleton_injective hk
    obtain ⟨st₁, out₁, out₂, h₁, h₂, rfl⟩ := hrun.split
    refine ⟨out₁, st₁, _, h₁, .inr ⟨ks, k, out₂, st', rfl, h₂, rfl⟩, ?_⟩
    rcases recvByte st' k.1 k.2 with e | ⟨st'', evs, brk⟩
    · rfl
    · rw [finish, finish, prepend, List.append_assoc]

theorem Outcome.nil {st : ClientState} {r : Result} (h : Outcome st [] r) : r = .ok (st, []) := by
  rcases h with ⟨-, rfl⟩ | ⟨is', i, -, -, heq, -⟩
  · rfl
  · exact absurd heq.symm (List.append_ne_nil_of_right_ne_nil _ (List.cons_ne_nil _ _))

theorem recvLoop_outcome (malloc : ℕ → Mem) (n : ℕ) {st : ClientState} {l : List UInt8}
    {r : Result} (h : Outcome st (paired malloc n l) r) : recvLoop malloc n st l = r := by
  induction l generalizing n st r with
  | nil => exact h.nil.symm
  | cons b l ih =>
    by_cases hl : l = []
    · subst hl
      rcases h with ⟨hnil, -⟩ | ⟨is', i, out, st', heq, hrun, rfl⟩
      · cases hnil
      · obtain ⟨rfl, hi⟩ := List.append_inj' (show [] ++ [(b, malloc n)] = is' ++ [i] from heq) rfl
        obtain rfl : (b, malloc n) = i := List.singleton_injective hi
        obtain ⟨rfl, rfl⟩ := hrun.nil_inv
        rw [recvLoop]
        rcases recvByte st' b (malloc n) with e | ⟨st'', evs, _ | _⟩
        · rfl
        · simp [recvLoop, finish]
        · rfl
    · obtain ⟨out, st', r', hrun, hout, rfl⟩ := Outcome.split
        (show Outcome st ([(b, malloc n)] ++ paired malloc (n + 1) l) r from h)
        (fun hnil => hl (paired_eq_nil hnil))
      obtain ⟨m, out₁, out₂, hstep, hnil, rfl⟩ := hrun.cons_inv
      obtain ⟨rfl, rfl⟩ := hnil.nil_inv
      rw [recvLoop, show recvByte st b (malloc n) = _ from hstep]
      simp only [ih _ hout, List.append_nil]
      rcases r' with e | r' <;> rfl

theorem handle_nil (malloc : ℕ → Mem) (n : ℕ) (st : ClientState) :
    libwebsock_handle_recv malloc n st [] = .ok (st, []) := by
  rw [libwebsock_handle_recv, dif_pos rfl]

theorem handle_outcome (malloc : ℕ → Mem) (n : ℕ) {st : ClientState} {l : List UInt8}
    {r : Result} (h : Outcome st (paired malloc n l) r) :
    libwebsock_handle_recv malloc n st l = r := by
  induction hk : l.length using Nat.strong_induction_on generalizing n st l r with
  | _ k ih =>
    by_cases hl : l = []
    · subst hl
      rw [handle_nil]
      exact h.nil.symm
    · rw [libwebsock_handle_recv, dif_neg hl]
      by_cases hd : l.drop bufSize = []
      · have htake : l.take bufSize = l := List.take_of_length_le (List.drop_eq_nil_iff.1 hd)
        rw [hd, htake, recvLoop_outcome malloc n h]
        rcases r with e | r
        · rfl
        · simp [handle_nil]
      · have hlen : bufSize < l.length := not_le.1 fun hle => hd (List.drop_eq_nil_iff.2 hle)
        have hsplit := paired_append malloc n (l.take bufSize) (l.drop bufSize)
        rw [List.take_append_drop, List.length_take, min_eq_left hlen.le] at hsplit
        rw [hsplit] at h
        obtain ⟨out, st', r', hrun, hout, rfl⟩ := h.split fun hnil => hd (paired_eq_nil hnil)
        have hlt : (l.drop bufSize).length < k := by
          rw [List.length_drop, ← hk]
          unfold bufSize at *
          omega
        rw [recvLoop_outcome malloc n (.of_run hrun)]
        simp only [ih _ hlt _ hout rfl]
        rcases r' with e | r' <;> rfl

theorem receive_nil (malloc : ℕ → Mem) (n : ℕ) (st : ClientState) {pieces : List (List UInt8)}
    (h : pieces.flatten = []) : receive malloc n st pieces = .ok (st, []) := by
  induction pieces generalizing n with
  | nil => rfl
  | cons p ps ih =>
    obtain ⟨rfl, hps⟩ := List.append_eq_nil_iff.1 (List.flatten_cons.symm.trans h)
    rw [receive, handle_nil]
    simp only [ih _ hps, List.append_nil]

/-- In whatever pieces the bytes come. -/
theorem receive_outcome (malloc : ℕ → Mem) (n : ℕ) {st : ClientState}
    {pieces : List (List UInt8)} {r : Result} (h : Outcome st (paired malloc n pieces.flatten) r) :
    receive malloc n st pieces = r := by
  induction pieces generalizing n st r with
  | nil => exact h.nil.symm
  | cons p ps ih =>
    rw [receive]
    rw [List.flatten_cons] at h
    by_cases hps : ps.flatten = []
    · rw [hps, List.append_nil] at h
      rw [handle_outcome malloc n h]
      rcases r with e | r
      · rfl
      · simp [receive_nil malloc _ _ hps]
    · rw [paired_append] at h
      obtain ⟨out, st', r', hrun, hout, rfl⟩ := h.split fun hnil => hps (paired_eq_nil hnil)
      rw [handle_outcome malloc n (.of_run hrun)]
      simp only [ih _ hout]
      rcases r' with e | r' <;> rfl

/-! ### Bytes -/

/-- The bytes of a frame that is not complete and whose length is one that can be waited for. -/
def Pending (x : List UInt8) : Prop :=
  Unfinished x ∧ (hdrLen x ≤ x.length → hdrLen x + lenOf x < 2 ^ 64)

theorem lenOf_of_header {x y : List UInt8} (h : hdrLen x ≤ x.length) :
    lenOf (x ++ y) = lenOf x := by
  unfold hdrLen at h
  exact lenOf_append y (by omega) (by omega)

theorem pending_short {x : List UInt8} (h : x.length < 3) : Pending x :=
  ⟨.inl h, fun hle => absurd ((hdrLen_bounds x).1.trans hle) (by omega)⟩

theorem Pending.of_append {x y : List UInt8} (h : Pending (x ++ y)) : Pending x := by
  have hle : x.length ≤ (x ++ y).length := by
    rw [List.length_append]
    omega
  by_cases h3 : x.length < 3
  · exact pending_short h3
  obtain ⟨hshort | ⟨hgood, hlen⟩, hwide⟩ := h
  · omega
  · rw [goodBits_append y (by omega)] at hgood
    rw [hdrLen_append y (by omega)] at hlen hwide
    by_cases hhdr : x.length < hdrLen x
    · exact ⟨.inr ⟨hgood, .inl hhdr⟩, by omega⟩
    · rw [lenOf_of_header (by omega)] at hlen hwide
      exact ⟨.inr ⟨hgood, .inr (by omega)⟩, fun _ => hwide (by omega)⟩

theorem IsFrame.pending {x y : List UInt8} (h : IsFrame (x ++ y)) (hy : y ≠ [])
    (hle : (x ++ y).length ≤ 2 ^ 31) : Pending x := by
  have hpos := List.length_pos_iff.2 hy
  by_cases h3 : x.length < 3
  · exact pending_short h3
  obtain ⟨hgood, hlen⟩ := h
  rw [goodBits_append y (by omega)] at hgood
  rw [hlen] at hle
  rw [List.length_append] at hlen
  rw [hdrLen_append y (by omega)] at hlen hle
  by_cases hhdr : x.length < hdrLen x
  · exact ⟨.inr ⟨hgood, .inl hhdr⟩, by omega⟩
  · rw [lenOf_of_header (by omega)] at hlen hle
    exact ⟨.inr ⟨hgood, .inr (by omega)⟩, by omega⟩

section Byte

variable {sent : Bool} {s : Stale} {a : Msgs} {x : List UInt8} {f g : Frame} {st : ClientState}
variable {b : UInt8} {m : Mem}

/-- A byte is stored without a look at the members. -/
theorem push_members (h : f.push b = .ok g) : g.state = f.state ∧ g.stale = f.stale := by
  unfold Frame.push at h
  by_cases hle : (if f.rawdata_sz ≤ f.rawdata_idx then u32 (f.rawdata_sz + f.rawdata_sz)
      else f.rawdata_sz) ≤ f.rawdata_idx
  · simp only [if_pos hle] at h
    cases h
  · simp only [if_neg hle, Except.ok.injEq] at h
    subst h
    exact ⟨rfl, rfl⟩

/-- The frame that a byte goes to. -/
theorem current_frame (hc : Current s x st) (m : Mem) :
    Holding x (st.current_frame.getD (firstFrame m)) ∧
      (x.length < 3 → (st.current_frame.getD (firstFrame m)).stale = s) := by
  rcases hc with ⟨hnone, rfl, rfl⟩ | ⟨f, hsome, hold, hstale⟩
  · rw [hnone]
    exact ⟨holding_nil ⟨0, by norm_num, rfl⟩ rfl rfl, fun _ => rfl⟩
  · rw [hsome]
    exact ⟨hold, hstale⟩

theorem recvByte_eq (hpush : (st.current_frame.getD (firstFrame m)).push b = .ok g) :
    recvByte st b m =
      let state := { st with current_frame := some (header g).2 }
      let failed :=
        if (header g).1 = -1 then libwebsock_fail_connection state WS_CLOSE_PROTOCOL_ERROR
        else (state, [])
      if (header g).1 = 0 then .ok (state, [], false)
      else if (header g).2.rawdata_idx <
          u64 ((header g).2.payload_offset + (header g).2.payload_len) then
        .ok (failed.1, failed.2, false)
      else
        match completeFrame failed.1 (header g).2 m with
        | .error e => .error e
        | .ok r => .ok (r.1, failed.2 ++ r.2, r.1.STATE_SHOULD_CLOSE) := by
  rw [recvByte, hpush]
  rfl

/-- The members stay until the header is read. -/
theorem header_stale (hst : g.state = .sw_start) :
    (header g).2.stale = g.stale := by
  have hread : header g = libwebsock_read_header g := if_neg (by rw [hst]; decide)
  rw [hread, libwebsock_read_header, hst]
  simp only
  split_ifs <;> rfl

/-- A byte that does not complete its frame is silent. -/
theorem byte_pending (hr : Ready sent a st) (hc : Current s x st) (hp : Pending (x ++ [b]))
    (hlt : x.length < 2 ^ 31) (m : Mem) :
    ∃ st', Step st (b, m) [] st' ∧ Ready sent a st' ∧ Current s (x ++ [b]) st' := by
  obtain ⟨hold, hstale⟩ := current_frame hc m
  obtain ⟨g, hpush, hadv⟩ := advance hold b hlt
  have hlen : (x ++ [b]).length = x.length + 1 := by
    rw [List.length_append, List.length_singleton]
  have hready : Ready sent a { st with current_frame := some (header g).2 } :=
    ⟨hr.should, hr.sent, hr.fragment, hr.info, hr.chain⟩
  have hkeep : (x ++ [b]).length < 3 → (header g).2.stale = s := by
    intro h3
    have hstate := (push_members hpush).1.trans (hold.state.trans (stageOf_start (by omega)))
    rw [header_stale hstate, (push_members hpush).2]
    exact hstale (by omega)
  obtain ⟨hunf, hwide⟩ := hp
  rcases hadv with ⟨h3, hbad, -⟩ | ⟨-, h0, hold'⟩ | ⟨-, -, hhdr, h1, hold'⟩
  · exact absurd (hunf.resolve_left (by omega)).1 hbad
  · refine ⟨_, ?_, hready, .inr ⟨_, rfl, hold', hkeep⟩⟩
    rw [Step, recvByte_eq hpush]
    exact if_pos h0
  · have h6 := (hdrLen_bounds (x ++ [b])).1
    have hmore : (x ++ [b]).length < hdrLen (x ++ [b]) + lenOf (x ++ [b]) := by
      rcases hunf with hshort | ⟨-, hshort | hmore⟩ <;> omega
    obtain ⟨-, hoff, hplen⟩ := hold'.full (by omega) (by have := (lenEnd_lt (x ++ [b])).2.2; omega)
    have hidx : (header g).2.rawdata_idx <
        u64 ((header g).2.payload_offset + (header g).2.payload_len) := by
      rw [hold'.idx, hoff, hplen, u64, Nat.mod_eq_of_lt (hwide hhdr)]
      exact hmore
    refine ⟨_, ?_, hready, .inr ⟨_, rfl, hold', hkeep⟩⟩
    rw [Step, recvByte_eq hpush]
    simp only [h1, if_pos hidx]
    rfl

/-- The last byte of a frame. -/
theorem byte_frame (hr : Ready sent a st) (hc : Current s x st) (ha : a.closed = false)
    (hx : IsFrame (x ++ [b])) (hle : (x ++ [b]).length ≤ 2 ^ 31) (m : Mem) :
    ∃ st', recvByte st b m =
        .ok (st', (a.accept sent (x ++ [b])).2, st'.STATE_SHOULD_CLOSE) ∧
      After sent (staleAfter (a.accept sent (x ++ [b])).1 (x ++ [b]))
        (a.accept sent (x ++ [b])).1 st' := by
  have hlen : (x ++ [b]).length = x.length + 1 := by
    rw [List.length_append, List.length_singleton]
  obtain ⟨hold, -⟩ := current_frame hc m
  obtain ⟨g, hpush, hadv⟩ := advance hold b (by omega)
  have h6 := (hdrLen_bounds (x ++ [b])).1
  have hfull := hx.2
  rcases hadv with ⟨h3, -⟩ | ⟨hshort, -⟩ | ⟨-, -, hhdr, h1, hold'⟩
  · omega
  · omega
  · obtain ⟨-, -, -, hoff, hplen, -⟩ := complete_fields hold' hx
    have hready : Ready sent a { st with current_frame := some (header g).2 } :=
      ⟨hr.should, hr.sent, hr.fragment, hr.info, hr.chain⟩
    obtain ⟨st', hcomplete, hafter⟩ := complete_frame hold' hx hready ha m
    have hidx : ¬ (header g).2.rawdata_idx <
        u64 ((header g).2.payload_offset + (header g).2.payload_len) := by
      rw [hold'.idx, hoff, hplen, u64, ← hfull, Nat.mod_eq_of_lt (by omega)]
      exact lt_irrefl _
    refine ⟨st', ?_, hafter⟩
    rw [recvByte_eq hpush]
    simp only [h1, if_neg hidx]
    rw [if_neg (by norm_num), if_neg (by norm_num), hcomplete]
    rfl

/-! ### Frames -/

/-- The bytes of a frame that is not complete. -/
theorem pending_run (hr : Ready sent a st) (is : List (UInt8 × Mem)) (hc : Current s x st)
    (hp : Pending (x ++ is.map Prod.fst)) (hle : (x ++ is.map Prod.fst).length ≤ 2 ^ 31) :
    ∃ st', Run Step st is [] st' ∧ Ready sent a st' ∧ Current s (x ++ is.map Prod.fst) st' := by
  induction is generalizing x st with
  | nil =>
    rw [List.map_nil, List.append_nil]
    exact ⟨st, .nil, hr, hc⟩
  | cons i is ih =>
    have hsplit : x ++ (i :: is).map Prod.fst = (x ++ [i.1]) ++ is.map Prod.fst := by
      rw [List.map_cons, List.append_assoc, List.singleton_append]
    rw [hsplit] at hp hle ⊢
    have hlt : x.length < 2 ^ 31 := by
      rw [List.length_append, List.length_append, List.length_singleton] at hle
      omega
    obtain ⟨st₁, hstep, hr₁, hc₁⟩ := byte_pending hr hc hp.of_append hlt i.2
    obtain ⟨st', hrun, hr', hc'⟩ := ih hr₁ hc₁ hp hle
    exact ⟨st', .cons hstep hrun, hr', hc'⟩

/-- The bytes of a frame. -/
theorem frame_run (hr : Ready sent a st) (hc : Current s [] st) (ha : a.closed = false)
    {is : List (UInt8 × Mem)} (his : is.map Prod.fst = x) (hx : IsFrame x)
    (hle : x.length ≤ 2 ^ 31) :
    ∃ is' i st₁ st', is = is' ++ [i] ∧ Run Step st is' [] st₁ ∧
      recvByte st₁ i.1 i.2 = .ok (st', (a.accept sent x).2, st'.STATE_SHOULD_CLOSE) ∧
      After sent (staleAfter (a.accept sent x).1 x) (a.accept sent x).1 st' := by
  subst his
  have hne : is ≠ [] := by
    rintro rfl
    exact absurd hx.length (by simp)
  obtain ⟨is', i, rfl⟩ := (List.eq_nil_or_concat' is).resolve_left hne
  rw [List.map_append, List.map_singleton] at hx hle ⊢
  have hp : Pending ([] ++ is'.map Prod.fst) := by
    rw [List.nil_append]
    exact hx.pending (List.cons_ne_nil _ _) hle
  have hle' : ([] ++ is'.map Prod.fst).length ≤ 2 ^ 31 := by
    rw [List.length_append] at hle
    rw [List.nil_append]
    omega
  obtain ⟨st₁, hrun, hr₁, hc₁⟩ := pending_run hr is' hc hp hle'
  obtain ⟨st', hbyte, hafter⟩ := byte_frame hr₁ hc₁ ha hx hle i.2
  exact ⟨is', i, st₁, st', rfl, hrun, hbyte, hafter⟩

/-- The bytes of frames, as long as the connection is not to be closed. -/
theorem frames_run {xs : List (List UInt8)} {out : List Ev}
    (hrun : Run (Accept sent) ⟨none, false⟩ xs out a) (ha : a.closed = false)
    (hr : Ready sent ⟨none, false⟩ st) (hc : Current .first [] st) {is : List (UInt8 × Mem)}
    (his : is.map Prod.fst = xs.flatten) :
    ∃ st', Run Step st is out st' ∧ Ready sent a st' ∧
      Current (staleAfter a (xs.getLast?.getD [])) [] st' := by
  induction hrun generalizing is with
  | nil =>
    obtain rfl := List.map_eq_nil_iff.1 his
    exact ⟨st, .nil, hr, hc⟩
  | snoc _ hstep ih =>
    obtain ⟨ha₁, hx, hle, hacc⟩ := hstep
    rw [List.flatten_append, List.flatten_singleton] at his
    obtain ⟨is₁, is₂, rfl, h₁, h₂⟩ := List.map_eq_append_iff.1 his
    obtain ⟨st₁, hrun₁, hr₁, hc₁⟩ := ih ha₁ h₁
    obtain ⟨is', i, st₂, st', rfl, hrun₂, hbyte, hafter⟩ := frame_run hr₁ hc₁ ha₁ h₂ hx hle
    rw [hacc] at hbyte hafter
    obtain ⟨hr', hc'⟩ := hafter.2 ha
    refine ⟨st', hrun₁.trans ?_, hr', ?_⟩
    · rw [hr'.should] at hbyte
      exact hrun₂.snoc hbyte
    · rw [List.getLast?_concat]
      exact hc'

theorem ready_fresh : Ready sent ⟨none, false⟩ (fresh sent) := ⟨rfl, rfl, rfl, rfl, rfl⟩

theorem current_fresh : Current .first [] (fresh sent) := .inl ⟨rfl, rfl, rfl⟩

/-- Over any stream of frames, with what has come of one that is not complete, the receiver does
what the machine does on the frames, in whatever pieces the stream comes. -/
theorem receive_pieces (malloc : ℕ → Mem) (n : ℕ) (pieces xs : List (List UInt8)) (r : List UInt8)
    (out : List Ev) (hrun : Run (Accept sent) ⟨none, false⟩ xs out a) (hp : Pending r)
    (hle : r.length ≤ 2 ^ 31) (hclosed : a.closed = true → r = [])
    (hpieces : pieces.flatten = xs.flatten ++ r) :
    ∃ st', receive malloc n (fresh sent) pieces = .ok (st', out) ∧
      st'.STATE_SHOULD_CLOSE = a.closed := by
  have hmap := map_paired malloc n pieces.flatten
  by_cases ha : a.closed = false
  · rw [hpieces] at hmap
    obtain ⟨is₁, is₂, heq, h₁, h₂⟩ := List.map_eq_append_iff.1 hmap
    obtain ⟨st₁, hrun₁, hr₁, hc₁⟩ := frames_run hrun ha ready_fresh current_fresh h₁
    obtain ⟨st', hrun₂, hr', -⟩ := pending_run hr₁ is₂ hc₁ (by rwa [List.nil_append, h₂])
      (by rwa [List.nil_append, h₂])
    have hall := hrun₁.trans hrun₂
    rw [List.append_nil, ← heq, ← hpieces] at hall
    exact ⟨st', receive_outcome malloc n (.of_run hall), hr'.should.trans ha.symm⟩
  · have hcl : a.closed = true := Bool.not_eq_false _ ▸ ha
    rw [hclosed hcl, List.append_nil] at hpieces
    cases hrun with
    | nil => cases hcl
    | snoc hrun hstep =>
      rename_i fs es t y evs
      obtain ⟨ha₁, hx, hle', hacc⟩ := hstep
      rw [hpieces, List.flatten_append, List.flatten_singleton] at hmap
      obtain ⟨is₁, is₂, heq, h₁, h₂⟩ := List.map_eq_append_iff.1 hmap
      obtain ⟨st₁, hrun₁, hr₁, hc₁⟩ := frames_run hrun ha₁ ready_fresh current_fresh h₁
      obtain ⟨is', i, st₂, st', rfl, hrun₂, hbyte, hafter⟩ := frame_run hr₁ hc₁ ha₁ h₂ hx hle'
      rw [hacc] at hbyte hafter
      have hout : Outcome (fresh sent) (paired malloc n pieces.flatten)
          (.ok (st', es ++ evs)) := by
        refine .inr ⟨is₁ ++ is', i, _, st₂, ?_, hrun₁.trans hrun₂, ?_⟩
        · rw [hpieces, List.flatten_append, List.flatten_singleton, heq, List.append_assoc]
        · rw [hbyte, List.append_nil, finish]
      exact ⟨st', receive_outcome malloc n hout, (hafter.1 hcl).trans hcl.symm⟩

end Byte

/-- A message in two fragments with a ping between them, read in three pieces. -/
theorem receive_pieces_ping : ∃ st', receive (fun _ _ => 0) 0 (fresh false)
      [[0x01, 0x81, 1, 2, 3], [4, 0x49, 0x89, 0x80, 0, 0, 0],
        [0, 0x80, 0x81, 5, 6, 7, 8, 0x6c, 0x81]] =
        .ok (st', [.evbuffer_add [0x8a, 0x00], .onmessage 1 2 [0x48, 0x69]]) ∧
      st'.STATE_SHOULD_CLOSE = false := by
  have hfirst : Accept false ⟨none, false⟩ [0x01, 0x81, 1, 2, 3, 4, 0x49] []
      ⟨some (1, [0x48]), false⟩ := ⟨rfl, ⟨by decide, by decide⟩, by decide, rfl⟩
  have hping : Accept false ⟨some (1, [0x48]), false⟩ [0x89, 0x80, 0, 0, 0, 0]
      [.evbuffer_add [0x8a, 0x00]] ⟨some (1, [0x48]), false⟩ :=
    ⟨rfl, ⟨by decide, by decide⟩, by decide, rfl⟩
  have hlast : Accept false ⟨some (1, [0x48]), false⟩ [0x80, 0x81, 5, 6, 7, 8, 0x6c]
      [.onmessage 1 2 [0x48, 0x69]] ⟨none, false⟩ :=
    ⟨rfl, ⟨by decide, by decide⟩, by decide, rfl⟩
  exact receive_pieces _ 0 _ _ [0x81] _ (.cons hfirst (.cons hping (.single hlast)))
    ⟨.inl (by decide), by decide⟩ (by decide) (by decide) rfl

end Libwebsock
