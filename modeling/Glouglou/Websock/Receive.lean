import Glouglou.Websock.Messages

/-!
# libwebsock: a frame that is complete

`Ready` relates the receiver between two frames to a state of the message machine: the frames
that are linked hold the fragments of the message (`Chain`), and the current frame holds what has
come of the next one (`Current`).  With the last byte of a frame the functions that
`libwebsock_handle_recv` calls do what the machine does with it (`complete_frame`).
-/

open CString

namespace Libwebsock

/-- The linked frames hold the fragments of the pending message. -/
def Chain (prev : List Frame) : Option (ℕ × List UInt8) → Prop
  | none => prev = []
  | some (opcode, data) =>
    (∃ first rest, prev.reverse = first :: rest ∧ first.opcode = opcode) ∧
      collect prev.reverse = .ok data ∧ (prev.map (·.payload_len)).sum = data.length

/-- The members of the first frame of a message, and of those linked to it. -/
def Stale.first : Stale := ⟨0, 0, 0, 2 ^ 64 - 1⟩
def Stale.next : Stale := ⟨0, 0, 0, 0⟩

/-- The current frame holds the bytes `x`, and its members are `s` until the header is read.
Without a frame there are no bytes. -/
def Current (s : Stale) (x : List UInt8) (st : ClientState) : Prop :=
  (st.current_frame = none ∧ x = [] ∧ s = .first) ∨
    ∃ f, st.current_frame = some f ∧ Holding x f ∧ (x.length < 3 → f.stale = s)

/-- The receiver between two frames. -/
structure Ready (sent : Bool) (a : Msgs) (st : ClientState) : Prop where
  should : st.STATE_SHOULD_CLOSE = false
  sent : st.STATE_SENT_CLOSE_FRAME = sent
  fragment : st.STATE_RECEIVING_FRAGMENT = a.pending.isSome
  info : st.close_info = none
  chain : Chain st.prev_frames a.pending

/-- The receiver after a frame. -/
def After (sent : Bool) (s : Stale) (a : Msgs) (st : ClientState) : Prop :=
  (a.closed = true → st.STATE_SHOULD_CLOSE = true) ∧
    (a.closed = false → Ready sent a st ∧ Current s [] st)

/-- The members that the frame `x` leaves behind, where it leads to `a`: a control frame is only
reset by two of them. -/
def staleAfter (a : Msgs) (x : List UInt8) : Stale :=
  if finOf x = 1 ∧ IsControl (opcodeOf x) then ⟨1, opcodeOf x, 2 + extLen x, lenOf x⟩
  else if a.pending.isSome then .next
  else .first

variable {sent : Bool} {s : Stale} {a : Msgs} {x : List UInt8} {f : Frame} {st : ClientState}

theorem opcodeOf_lt (x : List UInt8) : opcodeOf x < 16 :=
  Nat.and_lt_two_pow _ (show 0xf < 2 ^ 4 by norm_num)

theorem opcode_and_eight (x : List UInt8) : opcodeOf x &&& 0x8 = 0 ↔ opcodeOf x < 8 := by
  have hall : ∀ n < 16, n &&& 0x8 = 0 ↔ n < 8 := by decide
  exact hall _ (opcodeOf_lt x)

/-! ### What can happen to a frame -/

theorem after_fail (a : Msgs) (st : ClientState) (code : ℕ) :
    After sent s { a with closed := true } (libwebsock_fail_connection st code).1 :=
  ⟨fun _ => rfl, fun h => by cases h⟩

theorem after_open (ha : a.closed = false) (hr : Ready sent a st) (hc : Current s [] st) :
    After sent s a st :=
  ⟨fun h => absurd (ha.symm.trans h) (by decide), fun _ => ⟨hr, hc⟩⟩

/-- A frame that was reset holds nothing. -/
theorem holding_nil {f : Frame} (hsz : ∃ k ≤ 21, f.rawdata_sz = 1024 * 2 ^ k)
    (hidx : f.rawdata_idx = 0) (hstate : f.state = .sw_start) : Holding [] f where
  idx := hidx
  data := rfl
  le := Nat.zero_le _
  sz := hsz
  state := hstate.trans (stageOf_start (by simp)).symm
  bits h := by simp at h
  short h := by simp at h
  full h := by simp at h
  mask h := by simp at h

theorem act_control (h : Holding x f) (hx : IsFrame x) (h1 : finOf x = 1)
    (hc : IsControl (opcodeOf x)) (hr : Ready sent a st) (ha : a.closed = false) :
    ∃ st', libwebsock_frame_act st f = .ok (st', (a.control sent x).2) ∧
      After sent (staleAfter (a.control sent x).1 x) (a.control sent x).1 st' := by
  obtain ⟨-, -, hop, -⟩ := complete_fields h hx
  obtain ⟨st', g, hcall, hsz, hopen, hclosed⟩ := control_callback h hx hc hr.info ha
  rw [hr.sent] at hcall hopen hclosed
  have hact : libwebsock_frame_act st f = libwebsock_handle_control_frame st f := by
    rw [libwebsock_frame_act, hop]
    exact if_pos hc
  rw [hact, libwebsock_handle_control_frame, hcall]
  refine ⟨_, rfl, hclosed, fun hcl => ?_⟩
  obtain ⟨rfl, heq, hstale⟩ := hopen hcl
  rw [heq, staleAfter, if_pos ⟨h1, hc⟩, ← h1]
  refine ⟨⟨hr.should, hr.sent, hr.fragment, hr.info, hr.chain⟩, .inr ⟨_, rfl, ?_, fun _ => hstale⟩⟩
  refine holding_nil ?_ rfl rfl
  obtain ⟨k, hk, hf⟩ := h.sz
  exact ⟨k, hk, hsz.trans hf⟩

theorem collect_append {fs : List Frame} {d p : List UInt8} (h : collect fs = .ok d)
    (hf : f.unmask = .ok p) : collect (fs ++ [f]) = .ok (d ++ p) := by
  induction fs generalizing d with
  | nil =>
    cases h
    simp [collect, hf]
  | cons g fs ih =>
    rw [List.cons_append, collect]
    rw [collect] at h
    rcases hg : g.unmask with e | q
    · rw [hg] at h
      cases h
    · rw [hg] at h
      rcases hfs : collect fs with e | r
      · simp only [hfs] at h
        cases h
      · simp only [hfs, Except.ok.injEq] at h
        subst h
        simp only [ih hfs, List.append_assoc]

/-- A message is dispatched: its opcode is that of its first frame, its data those of all. -/
theorem dispatch_eq {opcode : ℕ} {data : List UInt8}
    (hop : ((st.prev_frames.reverse ++ [f]).headD f).opcode = opcode)
    (hdata : collect (st.prev_frames.reverse ++ [f]) = .ok data)
    (hlen : ((st.prev_frames.reverse ++ [f]).map (·.payload_len)).sum = data.length)
    (hs : st.STATE_SHOULD_CLOSE = false) (hsent : st.STATE_SENT_CLOSE_FRAME = sent)
    (hfrag : st.STATE_RECEIVING_FRAGMENT = false) (hinfo : st.close_info = none) :
    ∃ st', libwebsock_dispatch_message st f = .ok (st', (deliver opcode data).2) ∧
      After sent .first (deliver opcode data).1 st' := by
  unfold libwebsock_dispatch_message deliver
  simp only [hop, hdata, hlen]
  by_cases hbad : opcode = WS_OPCODE_TEXT ∧ validate_utf8_sequence data 0 = false
  · rw [if_pos hbad, if_pos hbad]
    exact ⟨_, rfl, after_fail ⟨none, false⟩ _ WS_CLOSE_WRONG_TYPE⟩
  · rw [if_neg hbad, if_neg hbad]
    exact ⟨_, rfl, after_open rfl ⟨hs, hsent, hfrag, hinfo, rfl⟩ (.inl ⟨rfl, rfl, rfl⟩)⟩

/-- The only frame of a message. -/
theorem dispatch_single (h : Holding x f) (hx : IsFrame x) (hr : Ready sent a st)
    (hnone : a.pending = none) :
    ∃ st', libwebsock_dispatch_message st f =
        .ok (st', (deliver (opcodeOf x) (payloadOf x)).2) ∧
      After sent .first (deliver (opcodeOf x) (payloadOf x)).1 st' := by
  obtain ⟨-, -, hop, -, hplen, -⟩ := complete_fields h hx
  have hprev : st.prev_frames = [] := by
    have hchain := hr.chain
    rwa [hnone] at hchain
  refine dispatch_eq ?_ ?_ ?_ hr.should hr.sent ?_ hr.info
  · rw [hprev]
    exact hop
  · have hcollect := collect_append (show collect [] = .ok [] from rfl) (unmask_eq h hx)
    rw [hprev]
    exact hcollect
  · rw [hprev, length_payloadOf hx]
    exact (Nat.add_zero _).trans hplen
  · rw [hr.fragment, hnone]
    rfl

/-- The last frame of a message in fragments. -/
theorem dispatch_last (h : Holding x f) (hx : IsFrame x) (hr : Ready sent a st) {opcode : ℕ}
    {data : List UInt8} (hsome : a.pending = some (opcode, data)) :
    ∃ st', libwebsock_dispatch_message { st with STATE_RECEIVING_FRAGMENT := false } f =
        .ok (st', (deliver opcode (data ++ payloadOf x)).2) ∧
      After sent .first (deliver opcode (data ++ payloadOf x)).1 st' := by
  obtain ⟨-, -, -, -, hplen, -⟩ := complete_fields h hx
  have hchain := hr.chain
  rw [hsome] at hchain
  obtain ⟨⟨first, rest, hprev, hop⟩, hcollect, hlen⟩ := hchain
  refine dispatch_eq ?_ ?_ ?_ hr.should hr.sent rfl hr.info
  · rw [show ({ st with STATE_RECEIVING_FRAGMENT := false } : ClientState).prev_frames =
      st.prev_frames from rfl, hprev]
    exact hop
  · exact collect_append hcollect (unmask_eq h hx)
  · rw [List.map_append, List.sum_append, List.map_reverse, List.sum_reverse, List.length_append,
      length_payloadOf hx]
    simp only [List.map_cons, List.map_nil, List.sum_cons, List.sum_nil, Nat.add_zero]
    rw [hplen]
    exact congrArg (· + lenOf x) hlen

/-- A frame is linked to its message. -/
theorem chain_link (h : Holding x f) (hx : IsFrame x) {prev : List Frame} {opcode : ℕ}
    {data : List UInt8} (hchain : Chain prev (some (opcode, data))) :
    Chain (f :: prev) (some (opcode, data ++ payloadOf x)) := by
  obtain ⟨-, -, -, -, hplen, -⟩ := complete_fields h hx
  obtain ⟨⟨first, rest, hprev, hop⟩, hcollect, hlen⟩ := hchain
  refine ⟨⟨first, rest ++ [f], ?_, hop⟩, ?_, ?_⟩
  · rw [List.reverse_cons, hprev, List.cons_append]
  · rw [List.reverse_cons]
    exact collect_append hcollect (unmask_eq h hx)
  · rw [List.map_cons, List.sum_cons, hlen, hplen, List.length_append, length_payloadOf hx,
      Nat.add_comm]

theorem chain_first (h : Holding x f) (hx : IsFrame x) :
    Chain [f] (some (opcodeOf x, payloadOf x)) := by
  obtain ⟨-, -, hop, -, hplen, -⟩ := complete_fields h hx
  refine ⟨⟨f, [], rfl, hop⟩, ?_, ?_⟩
  · exact collect_append (show collect [] = .ok [] from rfl) (unmask_eq h hx)
  · rw [length_payloadOf hx]
    exact (Nat.add_zero _).trans hplen

/-! ### What the machine does -/

/-- What the machine does with a frame at fault. -/
def Msgs.refuse (a : Msgs) : Msgs × List Ev :=
  ({ a with closed := true }, [failFrame WS_CLOSE_PROTOCOL_ERROR])

theorem accept_control (h1 : finOf x = 1) (hc : IsControl (opcodeOf x)) :
    a.accept sent x = a.control sent x := if_pos ⟨h1, hc⟩

section None

variable (hpend : a.pending = none)
include hpend

theorem accept_single (h1 : finOf x = 1) (hc : ¬ IsControl (opcodeOf x)) :
    a.accept sent x =
      if opcodeOf x = WS_OPCODE_TEXT ∨ opcodeOf x = WS_OPCODE_BINARY then
        deliver (opcodeOf x) (payloadOf x)
      else a.refuse := by
  unfold Msgs.accept Msgs.refuse
  rw [if_neg fun hno => hc hno.2, hpend]
  exact if_pos h1

theorem accept_first (h1 : finOf x ≠ 1) :
    a.accept sent x =
      if opcodeOf x = WS_OPCODE_CONTINUE ∨ 8 ≤ opcodeOf x then a.refuse
      else (⟨some (opcodeOf x, payloadOf x), a.closed⟩, []) := by
  unfold Msgs.accept Msgs.refuse
  rw [if_neg fun hno => h1 hno.1, hpend]
  exact if_neg h1

end None

theorem accept_next {opcode : ℕ} {data : List UInt8} (hpend : a.pending = some (opcode, data))
    (hc : ¬ (finOf x = 1 ∧ IsControl (opcodeOf x))) :
    a.accept sent x =
      if opcodeOf x ≠ WS_OPCODE_CONTINUE then a.refuse
      else if finOf x = 1 then deliver opcode (data ++ payloadOf x)
      else (⟨some (opcode, data ++ payloadOf x), a.closed⟩, []) := by
  unfold Msgs.accept Msgs.refuse
  rw [if_neg hc, hpend]

theorem act_message (hop : f.opcode = opcodeOf x) (hc : ¬ IsControl (opcodeOf x))
    (hm : opcodeOf x = WS_OPCODE_TEXT ∨ opcodeOf x = WS_OPCODE_BINARY ∨
      opcodeOf x = WS_OPCODE_CONTINUE) :
    libwebsock_frame_act st f = libwebsock_dispatch_message st f := by
  rw [libwebsock_frame_act, hop, if_neg (show ¬ (_ ∨ _ ∨ _) from hc), if_pos hm]

theorem act_other (hop : f.opcode = opcodeOf x) (hc : ¬ IsControl (opcodeOf x))
    (hm : ¬ (opcodeOf x = WS_OPCODE_TEXT ∨ opcodeOf x = WS_OPCODE_BINARY ∨
      opcodeOf x = WS_OPCODE_CONTINUE)) :
    libwebsock_frame_act st f =
      .ok (libwebsock_fail_connection st WS_CLOSE_PROTOCOL_ERROR) := by
  rw [libwebsock_frame_act, hop, if_neg (show ¬ (_ ∨ _ ∨ _) from hc), if_neg hm]

theorem refused (a : Msgs) (st : ClientState) :
    ∃ st', (.ok (libwebsock_fail_connection st WS_CLOSE_PROTOCOL_ERROR) : Result) =
      .ok (st', a.refuse.2) ∧ After sent s a.refuse.1 st' :=
  ⟨_, rfl, after_fail a st WS_CLOSE_PROTOCOL_ERROR⟩

theorem linked_current (m : Mem) (st : ClientState) :
    Current .next [] (linkFrame st f m) :=
  .inr ⟨_, rfl, holding_nil ⟨0, by norm_num, rfl⟩ rfl rfl, fun _ => rfl⟩

theorem staleAfter_data (hc : ¬ (finOf x = 1 ∧ IsControl (opcodeOf x))) :
    staleAfter a x = if a.pending.isSome then .next else .first := if_neg hc

theorem staleAfter_deliver (hc : ¬ (finOf x = 1 ∧ IsControl (opcodeOf x))) (opcode : ℕ)
    (data : List UInt8) : staleAfter (deliver opcode data).1 x = .first := by
  rw [staleAfter_data hc, deliver]
  split <;> rfl

/-- A frame outside of a message. -/
theorem complete_outside (h : Holding x f) (hx : IsFrame x) (hr : Ready sent a st)
    (ha : a.closed = false) (m : Mem) (hpend : a.pending = none) :
    ∃ st', completeFrame st f m = .ok (st', (a.accept sent x).2) ∧
      After sent (staleAfter (a.accept sent x).1 x) (a.accept sent x).1 st' := by
  obtain ⟨-, hfin, hop, -⟩ := complete_fields h hx
  have hfrag : ¬ st.STATE_RECEIVING_FRAGMENT = true := by
    rw [hr.fragment, hpend]
    decide
  unfold completeFrame
  rw [if_neg hfrag, hfin, hop]
  by_cases h1 : finOf x = 1
  · rw [if_pos h1]
    by_cases hc : IsControl (opcodeOf x)
    · have h0 : opcodeOf x ≠ 0 := by
        unfold IsControl WS_OPCODE_CLOSE WS_OPCODE_PING WS_OPCODE_PONG at hc
        omega
      rw [if_neg h0, accept_control h1 hc]
      exact act_control h hx h1 hc hr ha
    rw [accept_single hpend h1 hc]
    by_cases hdata : opcodeOf x = WS_OPCODE_TEXT ∨ opcodeOf x = WS_OPCODE_BINARY
    · have h0 : opcodeOf x ≠ 0 := by
        unfold WS_OPCODE_TEXT WS_OPCODE_BINARY at hdata
        omega
      rw [if_neg h0, if_pos hdata, act_message hop hc (hdata.imp_right Or.inl),
        staleAfter_deliver fun hno => hc hno.2]
      exact dispatch_single h hx hr hpend
    · rw [if_neg hdata]
      by_cases h0 : opcodeOf x = 0
      · rw [if_pos h0]
        exact refused a st
      · rw [if_neg h0, act_other hop hc fun hno =>
          hdata (hno.imp_right fun h => h.resolve_right h0)]
        exact refused a st
  · rw [if_neg h1, accept_first hpend h1]
    by_cases h8 : opcodeOf x &&& 0x8 ≠ 0
    · have hge : 8 ≤ opcodeOf x := not_lt.1 fun hlt => h8 ((opcode_and_eight x).2 hlt)
      rw [if_pos h8, if_pos (.inr hge)]
      exact refused a st
    have hlt : opcodeOf x < 8 := (opcode_and_eight x).1 (not_not.1 h8)
    rw [if_neg h8]
    by_cases h0 : opcodeOf x = 0
    · rw [if_pos h0, if_pos (.inl h0)]
      exact refused a st
    · rw [if_neg h0, if_neg fun hno => hno.elim h0 fun hge => absurd hlt (not_lt.2 hge)]
      have hprev : st.prev_frames = [] := by
        have hchain := hr.chain
        rwa [hpend] at hchain
      have hchain : Chain (f :: st.prev_frames) (some (opcodeOf x, payloadOf x)) := by
        rw [hprev]
        exact chain_first h hx
      rw [staleAfter_data fun hno => h1 hno.1]
      exact ⟨_, rfl, after_open ha ⟨hr.should, hr.sent, rfl, hr.info, hchain⟩
        (linked_current (f := f) m st)⟩

/-- A frame inside of a message. -/
theorem complete_inside (h : Holding x f) (hx : IsFrame x) (hr : Ready sent a st)
    (ha : a.closed = false) (m : Mem) {opcode : ℕ} {data : List UInt8}
    (hpend : a.pending = some (opcode, data)) :
    ∃ st', completeFrame st f m = .ok (st', (a.accept sent x).2) ∧
      After sent (staleAfter (a.accept sent x).1 x) (a.accept sent x).1 st' := by
  obtain ⟨-, hfin, hop, -⟩ := complete_fields h hx
  have hfrag : st.STATE_RECEIVING_FRAGMENT = true := by
    rw [hr.fragment, hpend]
    rfl
  unfold completeFrame
  rw [if_pos hfrag, hfin, hop]
  by_cases h1 : finOf x = 1
  · rw [if_pos h1]
    by_cases h8 : opcodeOf x &&& 0x8 = 0
    · have hlt : opcodeOf x < 8 := (opcode_and_eight x).1 h8
      have hc : ¬ IsControl (opcodeOf x) := by
        unfold IsControl WS_OPCODE_CLOSE WS_OPCODE_PING WS_OPCODE_PONG
        omega
      rw [if_pos h8, accept_next hpend fun hno => hc hno.2]
      by_cases h0 : opcodeOf x ≠ 0
      · rw [if_pos h0, if_pos (show opcodeOf x ≠ WS_OPCODE_CONTINUE from h0)]
        exact refused a st
      · rw [if_neg h0, if_neg (show ¬ opcodeOf x ≠ WS_OPCODE_CONTINUE from h0), if_pos h1,
          act_message hop hc (.inr (.inr (not_not.1 h0))),
          staleAfter_deliver fun hno => hc hno.2]
        exact dispatch_last h hx hr hpend
    · have hge : 8 ≤ opcodeOf x := not_lt.1 fun hlt => h8 ((opcode_and_eight x).2 hlt)
      rw [if_neg h8]
      by_cases hc : IsControl (opcodeOf x)
      · rw [accept_control h1 hc]
        exact act_control h hx h1 hc hr ha
      · have hdata : ¬ (opcodeOf x = WS_OPCODE_TEXT ∨ opcodeOf x = WS_OPCODE_BINARY ∨
            opcodeOf x = WS_OPCODE_CONTINUE) := by
          unfold WS_OPCODE_TEXT WS_OPCODE_BINARY WS_OPCODE_CONTINUE
          omega
        rw [accept_next hpend fun hno => hc hno.2, if_pos fun hno => hdata (.inr (.inr hno)),
          act_other hop hc hdata]
        exact refused a st
  · rw [if_neg h1, accept_next hpend fun hno => h1 hno.1]
    by_cases h0 : opcodeOf x ≠ 0
    · rw [if_pos h0, if_pos (show opcodeOf x ≠ WS_OPCODE_CONTINUE from h0)]
      exact refused a st
    · rw [if_neg h0, if_neg (show ¬ opcodeOf x ≠ WS_OPCODE_CONTINUE from h0), if_neg h1]
      have hchain := hr.chain
      rw [hpend] at hchain
      rw [staleAfter_data fun hno => h1 hno.1]
      exact ⟨_, rfl, after_open ha ⟨hr.should, hr.sent, hfrag, hr.info, chain_link h hx hchain⟩
        (linked_current (f := f) m st)⟩

/-- A frame that is complete has the effect that the machine says. -/
theorem complete_frame (h : Holding x f) (hx : IsFrame x) (hr : Ready sent a st)
    (ha : a.closed = false) (m : Mem) :
    ∃ st', completeFrame st f m = .ok (st', (a.accept sent x).2) ∧
      After sent (staleAfter (a.accept sent x).1 x) (a.accept sent x).1 st' := by
  rcases hpend : a.pending with _ | ⟨opcode, data⟩
  · exact complete_outside h hx hr ha m hpend
  · exact complete_inside h hx hr ha m hpend

end Libwebsock
