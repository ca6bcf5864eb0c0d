import Glouglou.Libglouglou.Server.Registry

/-!
# Packets and the status of their sender

`handle_packet` should see the packets of authenticated users only.  `user_add` makes every
user `GG_USER_STATUS_CONNECTED`, nothing in the library changes that, and the packet loop does
not ask: the first packet that is handed over breaks the rule, and until then nothing does.
-/

open CInt Libsendbuf Transducer

namespace Libglouglou

variable {Pkt : Type}

/-- If this is a call of `handle_packet`, its user has reached `GG_USER_STATUS_AUTHENTICATED`. -/
def Ev.Admitted : Ev Pkt → Prop
  | .handle_packet _ status _ =>
    ∃ st, status = some st ∧ GgUserStatus.val .GG_USER_STATUS_AUTHENTICATED ≤ st.val
  | _ => True

/-- Not a call of `handle_packet`. -/
def Ev.Quiet : Ev Pkt → Prop
  | .handle_packet _ _ _ => False
  | _ => True

/-- The datagram carries a packet to `handle_packet`: it is not empty, its sender is registered,
and it starts with something that decodes. -/
def Delivers (env : Env Pkt) (srv : GgServer) (i : Input) : Prop :=
  ∃ remote buf, i.recvfrom = some (remote, buf) ∧
    (env.user_find srv.user_list remote).isSome ∧ env.handle_packet.isSome ∧
    0 < env.ggpkt_receive_header buf ∧
    (env.pkt_decode buf (env.ggpkt_receive_header buf)).isSome

/-- A callback that hands over no packet. -/
def QuietStep (env : Env Pkt) (s : GgServer) (i : Input) (out : List (Ev Pkt)) (t : GgServer) :
    Prop :=
  Step env s i out t ∧ ¬ Delivers env s i

/-- No user was authenticated. -/
def AllConnected (srv : GgServer) : Prop :=
  ∀ usr ∈ srv.user_list, usr.status = .GG_USER_STATUS_CONNECTED

theorem Ev.Quiet.admitted {e : Ev Pkt} (h : e.Quiet) : e.Admitted := by
  cases e with
  | handle_packet => exact h.elim
  | _ => trivial

/-- The loop without a first packet does nothing. -/
theorem pktLoop_quiet {env : Env Pkt} {handle_packet : GgServer → ℕ → Pkt → GgServer}
    {buf_p : List UInt8} {buf_len : ℤ}
    (h : ¬ (0 < buf_len ∧ (env.pkt_decode buf_p buf_len).isSome)) (usr fuel : ℕ) (srv : GgServer) :
    pktLoop env handle_packet usr (fuel + 1) srv buf_p buf_len = (srv, []) := by
  unfold pktLoop
  split_ifs with hlen
  · rcases hd : env.pkt_decode buf_p buf_len with _ | p
    · rfl
    · exact absurd ⟨hlen, by rw [hd]; rfl⟩ h
  · rfl

/-- What `user_del` does is not a call of `handle_packet`. -/
theorem delEvs_quiet (net : Net) (usr : GgUser) :
    ∀ e ∈ (delEvs net usr : List (Ev Pkt)), e.Quiet := by
  intro e he
  rcases List.mem_append.1 he with he | he
  · cases hs : usr.sbuf with
    | none => simp [hs] at he
    | some sbuf =>
      simp only [hs, List.mem_map] at he
      obtain ⟨e', -, rfl⟩ := he
      trivial
  · rw [List.mem_singleton.1 he]
    trivial

/-- A new user is connected, and its registration calls nobody. -/
theorem user_add_quiet {env : Env Pkt} {net : Net} {s t : GgServer} {remote : SockaddrIn}
    {usr : GgUser} {out : List (Ev Pkt)}
    (h : user_add env net s remote = .ok (t, some usr, out)) :
    (∀ e ∈ out, e.Quiet) ∧ usr.status = .GG_USER_STATUS_CONNECTED ∧
      t.user_list = usr :: s.user_list := by
  unfold user_add at h
  rcases hs : sendbuf_new net.calloc net.malloc env.PACKET_SNDBUF_MAX 200 with ⟨_ | sbuf, ev⟩
  · simp only [hs] at h
    split at h <;> simp at h
  · simp only [hs, Except.ok.injEq, Prod.mk.injEq, Option.some.injEq] at h
    obtain ⟨rfl, rfl, rfl⟩ := h
    refine ⟨?_, rfl, rfl⟩
    intro e he
    obtain ⟨e', -, rfl⟩ := List.mem_map.1 he
    trivial

/-- Without a delivery no one is called and no one is authenticated. -/
theorem quiet_step {env : Env Pkt} {s t : GgServer} {i : Input} {out : List (Ev Pkt)}
    (h : QuietStep env s i out t) (hs : AllConnected s) :
    AllConnected t ∧ ∀ e ∈ out, e.Quiet := by
  obtain ⟨h, hd⟩ := h
  cases ended h with
  | error => exact ⟨hs, by simp⟩
  | @added remote buf hr hfind usr _ ev hadd =>
    obtain ⟨hq, hst, hl⟩ := user_add_quiet hadd
    constructor
    · intro v hv
      rw [hl, List.mem_cons] at hv
      rcases hv with rfl | hv
      · exact hst
      · exact hs v hv
    · intro e he
      simp only [user_send, List.append_assoc, List.cons_append, List.nil_append, List.mem_append,
        List.mem_cons, List.not_mem_nil, or_false] at he
      rcases he with he | rfl | rfl
      · exact hq e he
      · trivial
      · trivial
  | removed hr hfind hlen hdel =>
    obtain ⟨hsub, -, rfl⟩ := user_del_shrinks hdel
    exact ⟨fun v hv => hs v (hsub.subset hv), delEvs_quiet i.net _⟩
  | unhandled => exact ⟨hs, by simp [Ev.Quiet]⟩
  | @handed remote buf hr usr hfind hlen handle_packet hh _ ev hloop =>
    have hno : ¬ (0 < env.ggpkt_receive_header buf ∧
        (env.pkt_decode buf (env.ggpkt_receive_header buf)).isSome) := fun hno =>
      hd ⟨remote, buf, hr, by rw [hfind]; rfl, by rw [hh]; rfl, hno.1, hno.2⟩
    rw [pktLoop_quiet hno] at hloop
    cases hloop
    exact ⟨hs, by simp [Ev.Quiet]⟩

/-- A user that is found in the list, or not at all, is not authenticated. -/
theorem not_admitted {srv : GgServer} (hs : AllConnected srv) (usr : ℕ) (pkt : Pkt) :
    ¬ (Ev.handle_packet usr (srv.status usr) pkt).Admitted := by
  rintro ⟨st, hst, hle⟩
  simp only [GgServer.status, Option.map_eq_some_iff] at hst
  obtain ⟨v, hv, rfl⟩ := hst
  rw [hs v (List.mem_of_find?_eq_some hv)] at hle
  simp [GgUserStatus.val] at hle

/-- A delivery while no one is authenticated is one too early. -/
theorem not_admitted_of_delivers {env : Env Pkt} {s t : GgServer} {i : Input}
    {out : List (Ev Pkt)} (h : Step env s i out t) (hd : Delivers env s i) (hs : AllConnected s) :
    ¬ ∀ e ∈ out, e.Admitted := by
  obtain ⟨remote, buf, hr, hfind, hh, hlen, hdec⟩ := hd
  obtain ⟨usr, hfind⟩ := Option.isSome_iff_exists.1 hfind
  obtain ⟨handle_packet, hh⟩ := Option.isSome_iff_exists.1 hh
  obtain ⟨⟨pkt, buf_p, buf_len⟩, hdec⟩ := Option.isSome_iff_exists.1 hdec
  simp only [Step, cb_srv_receive, hr, hfind, if_neg hlen.ne', hh, pktLoop, if_pos hlen, hdec,
    Except.ok.injEq, Prod.mk.injEq] at h
  intro hall
  refine not_admitted hs usr.ptr pkt (hall _ ?_)
  rw [← h.2]
  exact List.mem_append_left _ List.mem_cons_self

/-- **Admission.**  In a run `handle_packet` is called for authenticated users only exactly if
no datagram of the run carries a packet to it. -/
theorem admission_iff (env : Env Pkt) {is : List Input} {es : List (Ev Pkt)} {t : GgServer}
    (h : Run (Step env) start is es t) :
    (∀ e ∈ es, e.Admitted) ↔ Run (QuietStep env) start is es t := by
  have hstart : AllConnected start := by simp [AllConnected, start]
  constructor
  · intro hall
    have hgood := h.restrict Ev.Admitted hall
    -- up to the first delivery nobody is authenticated, so it would be the first breach
    suffices Run (QuietStep env) start is es t ∧ AllConnected t from this.1
    clear h hall
    induction hgood with
    | nil => exact ⟨.nil, hstart⟩
    | snoc _ hs ih =>
      have hquiet : QuietStep env _ _ _ _ :=
        ⟨hs.1, fun hd => not_admitted_of_delivers hs.1 hd ih.2 hs.2⟩
      exact ⟨ih.1.snoc hquiet, (quiet_step hquiet ih.2).1⟩
  · intro hrun e he
    have hout := hrun.invariant_out AllConnected Ev.Quiet
      (fun _ _ _ _ hs hq => quiet_step hq hs) hstart
    exact (hout.2 e he).admitted

/-- A server with an owner, to whom every byte is a packet. -/
def ownerEnv : Env UInt8 where
  PACKET_SNDBUF_MAX := 4096
  ggpkt_receive_header := fun buf => buf.length
  user_find := fun l remote => l.find? fun usr => addrcmp usr.addr remote = 0
  pkt_decode := fun buf_p buf_len =>
    match buf_p with
    | [] => none
    | b :: buf_p => some (b, buf_p, buf_len - 1)
  handle_packet := some fun srv _ _ => srv

/-- The address of `datagram 1`. -/
def probe : SockaddrIn := ⟨2, 4430, 1, 0⟩

/-- The server with one probe. -/
def oneProbe : GgServer :=
  ⟨0, [⟨0, 0, 0, .GG_USER_STATUS_CONNECTED, probe,
    some (Libsendbuf.start (fun _ => 0) 4096 200)⟩], 1, 1, 1⟩

theorem step_first :
    Step ownerEnv start (datagram 1 [1])
      [.sendbuf probe (.timer_add 200000), .sendto 0 probe [] 0, .hello_res] oneProbe :=
  rfl

/-- A probe that registers and leaves again. -/
theorem admission_visit :
    ∃ es t, Run (Step ownerEnv) start [datagram 1 [1], datagram 1 []] es t ∧
      ∀ e ∈ es, e.Admitted := by
  have hleave : Step ownerEnv oneProbe (datagram 1 [])
      [.sendbuf probe .timer_del, .sendto 0 probe [] 0] ⟨0, [], 0, 1, 1⟩ := rfl
  have hrun := Run.cons step_first (Run.single hleave)
  refine ⟨_, _, hrun, (admission_iff ownerEnv hrun).2 ?_⟩
  refine Run.cons ⟨step_first, ?_⟩ (Run.single ⟨hleave, ?_⟩)
  · rintro ⟨remote, buf, hr, hfind, -⟩
    cases hfind
  · rintro ⟨remote, buf, hr, -, -, hlen, -⟩
    cases hr
    cases hlen

/-- The second datagram of an unknown probe is handed over. -/
theorem admission_second :
    ∃ es t, Run (Step ownerEnv) start [datagram 1 [1], datagram 1 [2]] es t ∧
      ¬ ∀ e ∈ es, e.Admitted := by
  have hsecond : Step ownerEnv oneProbe (datagram 1 [2])
      [.handle_packet 0 (some .GG_USER_STATUS_CONNECTED) 2, .hello_res] oneProbe := rfl
  refine ⟨_, _, Run.cons step_first (Run.single hsecond), fun hall => ?_⟩
  obtain ⟨st, hst, hle⟩ := hall (.handle_packet 0 (some .GG_USER_STATUS_CONNECTED) 2) (by simp)
  cases hst
  exact absurd hle (by decide)

end Libglouglou
