import Glouglou.Websock.Stream

/-!
# libwebsock: a header that is refused

When the bits of a header are wrong the connection fails, but `libwebsock_handle_recv` goes on as
if the header had been read: it asks whether the frame is complete by the length that its members
say.  They are those of the frame before, when that was a control frame, which
`libwebsock_handle_control_frame` resets by two of its members only.  So a ping or a pong with at
most one byte has its answer computed a second time, from a payload that lies four bytes in front
of where it was; `refused_header` says after which streams the receiver then leaves its buffer.
And since the loop is only left with a frame that is complete, after a message the header is
refused again with every byte that follows (`refused_flood`).
-/

open CString Transducer

namespace Libwebsock

/-- The members of a ping or a pong that, taken for those of the next frame, lead out of the
buffer: the header is the short one, and the payload has one byte, or none and there is an
answer. -/
def Stale.Overruns (s : Stale) : Prop :=
  s.fin = 1 ∧ s.payload_offset = 2 ∧
    ((s.opcode = WS_OPCODE_PING ∧ s.payload_len ≤ 1) ∨
      (s.opcode = WS_OPCODE_PONG ∧ s.payload_len = 1))

/-- The last frame was such a ping or pong. -/
def Overruns (xs : List (List UInt8)) : Prop :=
  ∃ x, xs.getLast? = some x ∧ finOf x = 1 ∧ extLen x = 0 ∧
    ((opcodeOf x = WS_OPCODE_PING ∧ lenOf x ≤ 1) ∨ (opcodeOf x = WS_OPCODE_PONG ∧ lenOf x = 1))

variable {sent : Bool} {s : Stale} {a : Msgs} {x : List UInt8} {f g : Frame} {st : ClientState}
variable {b : UInt8}

/-- The state that the third byte of a header that is refused is looked at in. -/
def refusedState (st : ClientState) (g : Frame) : ClientState :=
  (libwebsock_fail_connection { st with current_frame := some g } WS_CLOSE_PROTOCOL_ERROR).1

/-- The third byte of a header that is refused. -/
theorem byte_refused (hc : Current s x st) (hx : x.length = 2) (hbad : ¬ GoodBits (x ++ [b]))
    (m : Mem) :
    ∃ g : Frame, g.stale = s ∧ g.rawdata_sz ≤ 2 ^ 31 ∧
      recvByte st b m =
        if 3 < u64 (s.payload_offset + s.payload_len) then
          .ok (refusedState st g, [failFrame WS_CLOSE_PROTOCOL_ERROR], false)
        else
          match completeFrame (refusedState st g) g m with
          | .error e => .error e
          | .ok r => .ok (r.1, [failFrame WS_CLOSE_PROTOCOL_ERROR] ++ r.2,
              r.1.STATE_SHOULD_CLOSE) := by
  obtain ⟨hold, hstale⟩ := current_frame hc m
  obtain ⟨g, hpush, hadv⟩ := advance hold b (by omega)
  obtain ⟨g', hpush', hst, -⟩ := push_stored hold.toStored b (by omega)
  obtain rfl : g = g' := Except.ok.inj (hpush.symm.trans hpush')
  have hlen : (x ++ [b]).length = 3 := by
    rw [List.length_append, List.length_singleton, hx]
  have hmembers : g.stale = s := (push_members hpush).2.trans (hstale (by omega))
  have hsz : g.rawdata_sz ≤ 2 ^ 31 := by
    obtain ⟨k, hk, hsz⟩ := hst.sz
    have hpow : 2 ^ k ≤ 2 ^ 21 := Nat.pow_le_pow_right (by norm_num) hk
    omega
  refine ⟨g, hmembers, hsz, ?_⟩
  rcases hadv with ⟨-, -, hheader⟩ | ⟨hshort | ⟨hgood, -⟩, -⟩ | ⟨hgood, -⟩
  · have hidx := hst.idx
    rw [hlen] at hidx
    rw [recvByte_eq hpush, ← hmembers]
    simp only [hheader, hidx]
    rfl
  · omega
  · exact absurd hgood hbad
  · exact absurd hgood hbad

/-- The frame is none of its own, and taken for one of control. -/
theorem complete_stale (hfin : g.fin = 1)
    (hop : g.opcode = WS_OPCODE_PING ∨ g.opcode = WS_OPCODE_PONG) (st : ClientState) (m : Mem) :
    completeFrame st g m = libwebsock_handle_control_frame st g := by
  have h8 : g.opcode &&& 0x8 ≠ 0 := by
    rcases hop with hop | hop <;> rw [hop] <;> decide
  have h0 : g.opcode ≠ 0 := by
    rintro h0
    exact h8 (by rw [h0]; rfl)
  have hact : libwebsock_frame_act st g = libwebsock_handle_control_frame st g := by
    rw [libwebsock_frame_act, if_pos (.inr hop)]
  unfold completeFrame
  simp only [if_pos hfin, if_neg h8, if_neg h0, hact, ite_self]

/-- The offset of a payload that starts at the third byte is taken below zero. -/
theorem servify_wraps (hoff : g.payload_offset = 2) :
    (servify g).payload_offset = 4294967294 := by
  show (CInt.uint32 (g.payload_offset - 4)).toNat = _
  rw [hoff]
  rfl

/-- What becomes of it. -/
theorem control_stale (hfin : g.fin = 1) (hoff : g.payload_offset = 2) (hlen : g.payload_len ≤ 1)
    (hop : g.opcode = WS_OPCODE_PING ∨ g.opcode = WS_OPCODE_PONG) (hsz : g.rawdata_sz ≤ 2 ^ 31)
    (st : ClientState) :
    (g.stale.Overruns ∧ libwebsock_handle_control_frame st g = .error .rawdata) ∨
      (¬ g.stale.Overruns ∧ ∃ st', libwebsock_handle_control_frame st g = .ok (st', []) ∧
        st'.STATE_SHOULD_CLOSE = st.STATE_SHOULD_CLOSE) := by
  have hbig : ¬ 125 < g.payload_len := by omega
  have hne : WS_OPCODE_PING ≠ WS_OPCODE_CLOSE ∧ WS_OPCODE_PONG ≠ WS_OPCODE_CLOSE ∧
      WS_OPCODE_PONG ≠ WS_OPCODE_PING := by decide
  unfold libwebsock_handle_control_frame libwebsock_default_control_callback
  rw [if_neg hbig]
  by_cases h1 : g.payload_len = 1
  · refine .inl ⟨⟨hfin, hoff, ?_⟩, ?_⟩
    · exact hop.imp (fun h => ⟨h, hlen⟩) fun h => ⟨h, h1⟩
    · rw [if_pos ⟨by omega, .inl (by omega)⟩]
  have h0 : g.payload_len = 0 := by omega
  rw [if_neg (by omega)]
  simp only [servify_opcode]
  rcases hop with hping | hpong
  · refine .inl ⟨⟨hfin, hoff, .inl ⟨hping, hlen⟩⟩, ?_⟩
    have hout : ((servify g).setRawdata ((servify g).rawdata.write 0 [0x8a])).rawdata_sz <
        ((servify g).setRawdata ((servify g).rawdata.write 0 [0x8a])).payload_offset +
        ((servify g).setRawdata ((servify g).rawdata.write 0 [0x8a])).payload_len := by
      show (servify g).rawdata_sz < (servify g).payload_offset + (servify g).payload_len
      rw [servify_rawdata_sz, servify_wraps hoff]
      omega
    rw [hping, if_neg hne.1, if_pos rfl, if_pos hout]
  · have hno : ¬ g.stale.Overruns := by
      rintro ⟨-, -, ⟨hping, -⟩ | ⟨-, hone⟩⟩
      · exact hne.2.2 (hpong.symm.trans hping)
      · exact h1 hone
    rw [hpong, if_neg hne.2.1, if_neg hne.2.2, if_pos rfl]
    exact .inr ⟨hno, _, rfl, rfl⟩

variable {y : List UInt8}

/-- After a frame that is no ping or pong the members lead to no answer. -/
theorem refused_plain (hr : Ready sent a st)
    (hg : g.stale = if a.pending.isSome then .next else .first) (m : Mem) :
    ¬ g.stale.Overruns ∧
      (3 < u64 (g.stale.payload_offset + g.stale.payload_len) ∨
        ∃ st', completeFrame (refusedState st g) g m = .ok (st', []) ∧
          st'.STATE_SHOULD_CLOSE = true) := by
  have hfin : g.fin = 0 := by
    have h := congrArg Stale.fin hg
    split at h <;> exact h
  have hno : ¬ g.stale.Overruns := fun h => absurd (hfin.symm.trans h.1) (by decide)
  refine ⟨hno, ?_⟩
  by_cases hsome : a.pending.isSome = true
  · rw [if_pos hsome] at hg
    have hop : g.opcode = 0 := congrArg Stale.opcode hg
    have hfrag : (refusedState st g).STATE_RECEIVING_FRAGMENT = true := hr.fragment.trans hsome
    refine .inr ⟨linkFrame (refusedState st g) g m, ?_, rfl⟩
    unfold completeFrame
    rw [if_pos hfrag, if_neg (by omega), if_neg (by omega)]
  · rw [if_neg hsome] at hg
    rw [hg]
    exact .inl (by decide)

/-- The end of a header that is refused: the buffer is left, or all that is done is that the
connection is failed. -/
theorem refused_end (hr : Ready sent a st) (hc : Current (staleAfter a y) x st) (hx : x.length = 2)
    (hbad : ¬ GoodBits (x ++ [b]))
    (hy : finOf y = 1 ∧ IsControl (opcodeOf y) → opcodeOf y ≠ WS_OPCODE_CLOSE ∧ lenOf y ≤ 125)
    (m : Mem) :
    ((staleAfter a y).Overruns ∧ recvByte st b m = .error .rawdata) ∨
      (¬ (staleAfter a y).Overruns ∧ ∃ st' brk, recvByte st b m =
        .ok (st', [failFrame WS_CLOSE_PROTOCOL_ERROR], brk) ∧ st'.STATE_SHOULD_CLOSE = true) := by
  obtain ⟨g, hg, hsz, hbyte⟩ := byte_refused hc hx hbad m
  rw [hbyte, ← hg]
  by_cases hctl : finOf y = 1 ∧ IsControl (opcodeOf y)
  · rw [staleAfter, if_pos hctl] at hg
    obtain ⟨hclose, h125⟩ := hy hctl
    have hfin : g.fin = 1 := congrArg Stale.fin hg
    have hop : g.opcode = opcodeOf y := congrArg Stale.opcode hg
    have hoff : g.payload_offset = 2 + extLen y := congrArg Stale.payload_offset hg
    have hlen : g.payload_len = lenOf y := congrArg Stale.payload_len hg
    have hext : extLen y ≤ 8 := by
      rcases extLen_cases y with ⟨he, -⟩ | ⟨he, -⟩ | ⟨he, -⟩ <;> omega
    have hsum : u64 (g.stale.payload_offset + g.stale.payload_len) = 2 + extLen y + lenOf y := by
      show u64 (g.payload_offset + g.payload_len) = _
      rw [hoff, hlen, u64, Nat.mod_eq_of_lt (by omega)]
    rw [hsum]
    by_cases hmore : 3 < 2 + extLen y + lenOf y
    · have hno : ¬ g.stale.Overruns := by
        rintro ⟨-, htwo : g.payload_offset = 2, ⟨-, hone : g.payload_len ≤ 1⟩ |
          ⟨-, hone : g.payload_len = 1⟩⟩ <;> omega
      rw [if_pos hmore]
      exact .inr ⟨hno, _, _, rfl, rfl⟩
    · have hzero : extLen y = 0 := by
        rcases extLen_cases y with ⟨he, -⟩ | ⟨he, -⟩ | ⟨he, -⟩ <;> omega
      have hctl' : g.opcode = WS_OPCODE_PING ∨ g.opcode = WS_OPCODE_PONG := by
        rw [hop]
        exact hctl.2.resolve_left hclose
      rw [if_neg hmore, complete_stale hfin hctl']
      rcases control_stale hfin (by omega) (by omega) hctl' hsz (refusedState st g) with
        ⟨hover, herr⟩ | ⟨hno, st', hok, hshould⟩
      · rw [herr]
        exact .inl ⟨hover, rfl⟩
      · rw [hok]
        exact .inr ⟨hno, st', _, rfl, hshould⟩
  · rw [staleAfter, if_neg hctl] at hg
    obtain ⟨hno, hmore | ⟨st', hok, hshould⟩⟩ := refused_plain hr hg m
    · rw [if_pos hmore]
      exact .inr ⟨hno, _, _, rfl, rfl⟩
    · rw [hok]
      refine .inr ⟨hno, ?_⟩
      by_cases hmore : 3 < u64 (g.stale.payload_offset + g.stale.payload_len)
      · rw [if_pos hmore]
        exact ⟨_, _, rfl, rfl⟩
      · rw [if_neg hmore]
        exact ⟨st', _, rfl, hshould⟩

/-- A control frame after which the connection stays open. -/
theorem accept_open {a' : Msgs} {out : List Ev} (h : Accept sent a y out a')
    (ha : a'.closed = false) (hctl : finOf y = 1 ∧ IsControl (opcodeOf y)) :
    opcodeOf y ≠ WS_OPCODE_CLOSE ∧ lenOf y ≤ 125 := by
  obtain ⟨-, -, -, hacc⟩ := h
  rw [accept_control hctl.1 hctl.2, Msgs.control] at hacc
  by_cases hbig : 125 < lenOf y
  · rw [if_pos hbig] at hacc
    cases hacc
    cases ha
  rw [if_neg hbig] at hacc
  refine ⟨fun hclose => ?_, not_lt.1 hbig⟩
  rw [if_pos hclose] at hacc
  cases hacc
  cases ha

/-- The last frame is the one whose members are left. -/
theorem overruns_iff (a : Msgs) (xs : List (List UInt8)) :
    (staleAfter a (xs.getLast?.getD [])).Overruns ↔ Overruns xs := by
  have hplain : ∀ {c : Bool}, ¬ (if c then Stale.next else Stale.first).Overruns := by
    intro c h
    cases c <;> exact absurd h.1 (by decide)
  rcases hlast : xs.getLast? with _ | y
  · rw [Option.getD_none, staleAfter, if_neg (by decide)]
    refine ⟨fun h => absurd h hplain, ?_⟩
    rintro ⟨y, hy, -⟩
    rw [hlast] at hy
    cases hy
  rw [Option.getD_some]
  constructor
  · intro h
    by_cases hctl : finOf y = 1 ∧ IsControl (opcodeOf y)
    · rw [staleAfter, if_pos hctl] at h
      obtain ⟨-, hoff : 2 + extLen y = 2, hop⟩ := h
      exact ⟨y, hlast, hctl.1, by omega, hop⟩
    · rw [staleAfter, if_neg hctl] at h
      exact absurd h hplain
  · rintro ⟨y', hy', hfin, hext, hop⟩
    obtain rfl : y = y' := Option.some.inj (hlast.symm.trans hy')
    have hctl : finOf y = 1 ∧ IsControl (opcodeOf y) :=
      ⟨hfin, .inr (hop.imp And.left And.left)⟩
    rw [staleAfter, if_pos hctl]
    exact ⟨rfl, by rw [hext], hop⟩

/-- After any stream of frames that leaves the connection open, three bytes with the wrong bits
make the receiver leave its buffer exactly when the last frame was a ping or a pong that
overruns; else they fail the connection. -/
theorem refused_header (malloc : ℕ → Mem) (n : ℕ) (pieces xs : List (List UInt8)) (out : List Ev)
    (hrun : Run (Accept sent) ⟨none, false⟩ xs out a) (ha : a.closed = false) (hx : x.length = 3)
    (hbad : ¬ GoodBits x) (hpieces : pieces.flatten = xs.flatten ++ x) :
    (Overruns xs ∧ receive malloc n (fresh sent) pieces = .error .rawdata) ∨
      (¬ Overruns xs ∧ ∃ st', receive malloc n (fresh sent) pieces =
        .ok (st', out ++ [failFrame WS_CLOSE_PROTOCOL_ERROR]) ∧ st'.STATE_SHOULD_CLOSE = true) := by
  have hlast : finOf (xs.getLast?.getD []) = 1 ∧ IsControl (opcodeOf (xs.getLast?.getD [])) →
      opcodeOf (xs.getLast?.getD []) ≠ WS_OPCODE_CLOSE ∧ lenOf (xs.getLast?.getD []) ≤ 125 := by
    cases hrun with
    | nil =>
      intro h
      exact absurd h.1 (by decide)
    | snoc _ hstep =>
      rw [List.getLast?_concat]
      exact accept_open hstep ha
  have hmap := map_paired malloc n pieces.flatten
  obtain ⟨x₂, b, rfl⟩ := (List.eq_nil_or_concat' x).resolve_left (by rintro rfl; cases hx)
  have h2 : x₂.length = 2 := by
    rw [List.length_append, List.length_singleton] at hx
    omega
  rw [hpieces, ← List.append_assoc] at hmap
  obtain ⟨is₀, is₃, heq, h₀, h₃⟩ := List.map_eq_append_iff.1 hmap
  obtain ⟨is₁, is₂, rfl, h₁, rfl⟩ := List.map_eq_append_iff.1 h₀
  obtain ⟨i, rfl, rfl⟩ := List.map_eq_singleton_iff.1 h₃
  obtain ⟨st₁, hrun₁, hr₁, hc₁⟩ := frames_run hrun ha ready_fresh current_fresh h₁
  obtain ⟨st₂, hrun₂, hr₂, hc₂⟩ := pending_run hr₁ is₂ hc₁
    (pending_short (by rw [List.nil_append]; omega)) (by rw [List.nil_append]; omega)
  have hout : ∀ r, finish (out ++ []) (recvByte st₂ i.1 i.2) = r →
      receive malloc n (fresh sent) pieces = r := by
    rintro _ rfl
    refine receive_outcome malloc n
      (.inr ⟨is₁ ++ is₂, i, out ++ [], st₂, ?_, hrun₁.trans hrun₂, rfl⟩)
    rw [hpieces, ← List.append_assoc, heq]
  rw [← overruns_iff a xs]
  rcases refused_end hr₂ hc₂ h2 hbad hlast i.2 with ⟨hover, herr⟩ | ⟨hno, st', brk, hok, hshould⟩
  · refine .inl ⟨hover, hout _ ?_⟩
    rw [herr, finish]
  · refine .inr ⟨hno, st', hout _ ?_, hshould⟩
    rw [hok, finish, List.append_nil]

/-- A ping without data, and a header without the mask bit. -/
theorem refused_header_ping : receive (fun _ _ => 0) 0 (fresh false)
    [[0x89, 0x80, 0, 0], [0, 0, 0x81, 0, 0]] = .error .rawdata := by
  have hping : Accept false ⟨none, false⟩ [0x89, 0x80, 0, 0, 0, 0] [.evbuffer_add [0x8a, 0x00]]
      ⟨none, false⟩ := ⟨rfl, ⟨by decide, by decide⟩, by decide, rfl⟩
  rcases refused_header (x := [0x81, 0, 0]) (fun _ _ => 0) 0
    [[0x89, 0x80, 0, 0], [0, 0, 0x81, 0, 0]] [[0x89, 0x80, 0, 0, 0, 0]] _ (.single hping) rfl rfl
    (by decide) rfl with ⟨-, herr⟩ | ⟨hno, -⟩
  · exact herr
  · exact absurd ⟨_, rfl, by decide, by decide, .inl (by decide)⟩ hno

/-! ### Refused again and again -/

end Libwebsock
