import Glouglou.Libglouglou.Server.Registry
import Glouglou.Sendbuf.Whole

/-!
# What a peer is sent

The server, the send buffers of its users and their timers together, seen from one address.  A
session of a peer opens with an empty datagram, goes on with non-empty ones and closes with an
empty one (`Sessions`).

Here the callback of the buffers forwards to `user_send`, every send takes all or nothing and
`sendbuf_new` succeeds (`Net.World`); the owner appends to the buffers of the users, and the
timers of the buffers fire (`SessionOp`).  `session_step` says what one step sends to one
address and why, `run_sessions` what a run sends, `stop_sessions` what `gg_server_stop` does.
-/

open CInt Libsendbuf Transducer

namespace Libglouglou

variable {Pkt : Type}

/-! ### What is assumed of the code around the server -/

/-- The callback of the buffers sends its bytes with `user_send`, and a send takes all or
nothing. -/
structure Net.World (net : Net) : Prop where
  forwards : ∀ usr data tosend, net.cb_usr_send usr data tosend = net.sendto usr.addr data
  whole : ∀ addr data, net.sendto addr data = -1 ∨ net.sendto addr data = data.length

/-- The users with their buffers. -/
def GgServer.slots (srv : GgServer) : List (ℕ × SockaddrIn × Option Sendbuf) :=
  srv.user_list.map fun usr => (usr.ptr, usr.addr, usr.sbuf)

/-- `handle_packet` leaves the registry and the buffers alone; what the owner appends when it is
called is a step of its own. -/
def Env.KeepsBuffers (env : Env Pkt) : Prop :=
  ∀ handle_packet, env.handle_packet = some handle_packet → ∀ srv usr pkt,
    (handle_packet srv usr pkt).slots = srv.slots ∧
    (handle_packet srv usr pkt).user_count = srv.user_count ∧
    (handle_packet srv usr pkt).ptrs = srv.ptrs

/-- A send buffer has room for a byte and is smaller than 1 GiB. -/
structure Env.SndbufFits (env : Env Pkt) : Prop where
  pos : 1 ≤ env.PACKET_SNDBUF_MAX
  small : env.PACKET_SNDBUF_MAX < 2 ^ 30

theorem entries_of_slots {s t : GgServer} (h : t.slots = s.slots) : t.entries = s.entries := by
  have := congrArg (List.map fun e : ℕ × SockaddrIn × Option Sendbuf => (e.1, e.2.1)) h
  rwa [GgServer.slots, GgServer.slots, List.map_map, List.map_map] at this

theorem Env.KeepsBuffers.registry {env : Env Pkt} (hk : env.KeepsBuffers) : env.KeepsRegistry :=
  fun _ hh srv usr pkt =>
    ⟨entries_of_slots (hk _ hh srv usr pkt).1, (hk _ hh srv usr pkt).2⟩

theorem Net.World.wholeOrFail {net : Net} (hw : net.World) (usr : GgUser) :
    WholeOrFail (net.cb_usr_send usr) := by
  intro data tosend
  rw [hw.forwards]
  exact hw.whole usr.addr data

/-! ### The steps -/

/-- An operation on the send buffer of a linked user, who is named by its address in memory. -/
def onSbuf (srv : GgServer) (usr : ℕ) (op : GgUser → Libsendbuf.Op) :
    Option (GgServer × List (Ev Pkt)) :=
  match srv.user_list.find? (·.ptr = usr) with
  | none => none
  | some u =>
    match u.sbuf with
    | none => none
    | some sbuf =>
      let r := exec sbuf (op u)
      some ({ srv with
          user_list := srv.user_list.map fun v =>
            if v.ptr = usr then { v with sbuf := some r.1 } else v },
        r.2.map (Ev.sendbuf u.addr))

/-- What happens to a server that runs: a datagram arrives, the owner appends a token to the
buffer of a user, the timer of a user's buffer fires. -/
inductive SessionOp
  | datagram (i : Input)
  | append (net : Net) (usr : ℕ) (token : List UInt8)
  | timer (net : Net) (usr : ℕ)

/-- One step.  The token is not empty and no larger than the buffer; a freed buffer has neither
appends nor timers. -/
def SessionStep (env : Env Pkt) (s : GgServer) (op : SessionOp) (out : List (Ev Pkt))
    (t : GgServer) : Prop :=
  match op with
  | .datagram i => i.net.World ∧ i.net.Allocates ∧ Step env s i out t
  | .append net usr token =>
    net.World ∧ token ≠ [] ∧ token.length ≤ env.PACKET_SNDBUF_MAX ∧
      onSbuf s usr (fun u => .append (net.cb_usr_send u) token) = some (t, out)
  | .timer net usr =>
    net.World ∧ onSbuf s usr (fun u => .timer (net.cb_usr_send u)) = some (t, out)

/-- `gg_server_stop`, its loop followed for at most `fuel` turns. -/
def gg_server_stop (net : Net) :
    ℕ → GgServer → Option (Except (List (Ev Pkt)) (GgServer × List (Ev Pkt)))
  | 0, _ => none
  | fuel + 1, srv =>
    match srv.user_list with
    | [] => some (.ok (srv, []))
    | usr :: _ =>
      match user_del net srv usr with
      | .error ev => some (.error ev)
      | .ok (srv, ev) =>
        match gg_server_stop net fuel srv with
        | none => none
        | some (.error ev') => some (.error (ev ++ ev'))
        | some (.ok (srv, ev')) => some (.ok (srv, ev ++ ev'))

/-! ### One peer -/

/-- The datagrams that an effect attempts to send to an address. -/
def Ev.attempted (a : SockaddrIn) : Ev Pkt → List (List UInt8)
  | .sendto _ addr data _ => if addrcmp addr a = 0 then [data] else []
  | .sendbuf addr e => if addrcmp addr a = 0 then offered e else []
  | _ => []

/-- Whether the buffer of an address has its timer armed, after an effect. -/
def Ev.armed (a : SockaddrIn) (armed : Bool) : Ev Pkt → Bool
  | .sendbuf addr e => if addrcmp addr a = 0 then (timer e).getD armed else armed
  | _ => armed

/-- The datagrams of a peer: complete sessions, and an open one if it is registered. -/
def Sessions (registered : Bool) (ds : List (List UInt8)) : Prop :=
  ∃ (closed : List (List (List UInt8))) (data : List (List UInt8)),
    (∀ c ∈ closed, ∀ d ∈ c, d ≠ []) ∧ (∀ d ∈ data, d ≠ []) ∧
    ds = closed.flatMap (fun c => [] :: c ++ [[]]) ++ if registered then [] :: data else []

/-- The bytes in the buffer of the user at an address. -/
def buffered (srv : GgServer) (a : SockaddrIn) : List UInt8 :=
  match srv.user_list.find? (fun usr => addrcmp usr.addr a = 0) with
  | some ⟨_, _, _, _, _, some sbuf⟩ => pending sbuf
  | _ => []

/-- What a step may send to an address: nothing, what the buffer of its user holds, the opening
datagram of a user that it registers, or what the buffer holds and the closing datagram of a
user that it removes. -/
inductive PeerStep (s t : GgServer) (a : SockaddrIn) : List (List UInt8) → Prop
  | idle (h : Registered t a ↔ Registered s a) : PeerStep s t a []
  | data (hs : Registered s a) (ht : Registered t a) (hne : buffered s a ≠ []) :
      PeerStep s t a [buffered s a]
  | opening (hs : ¬ Registered s a) (ht : Registered t a) : PeerStep s t a [[]]
  | closing (hs : Registered s a) (ht : ¬ Registered t a) :
      PeerStep s t a (atOnce (buffered s a) ++ [[]])

theorem Sessions.nil : Sessions false [] := ⟨[], [], by simp, by simp, rfl⟩

/-- A step continues the sessions of a peer. -/
theorem Sessions.step {s t : GgServer} {a : SockaddrIn} {ds ds' : List (List UInt8)}
    (h : Sessions (decide (Registered s a)) ds) (hstep : PeerStep s t a ds') :
    Sessions (decide (Registered t a)) (ds ++ ds') := by
  obtain ⟨closed, data, hclosed, hdata, rfl⟩ := h
  cases hstep with
  | idle h =>
    rw [List.append_nil, decide_eq_decide.2 h]
    exact ⟨closed, data, hclosed, hdata, rfl⟩
  | data hs ht hne =>
    refine ⟨closed, data ++ [buffered s a], hclosed, ?_, ?_⟩
    · intro d hd
      rcases List.mem_append.1 hd with hd | hd
      · exact hdata d hd
      · rwa [List.mem_singleton.1 hd]
    · simp [hs, ht]
  | opening hs ht =>
    refine ⟨closed, [], hclosed, by simp, ?_⟩
    simp [hs, ht]
  | closing hs ht =>
    refine ⟨closed ++ [data ++ atOnce (buffered s a)], [], ?_, by simp, ?_⟩
    · intro c hc d hd
      rcases List.mem_append.1 hc with hc | hc
      · exact hclosed c hc d hd
      · rw [List.mem_singleton.1 hc] at hd
        rcases List.mem_append.1 hd with hd | hd
        · exact hdata d hd
        · unfold atOnce at hd
          split_ifs at hd with hnil
          · cases hd
          · rwa [List.mem_singleton.1 hd]
    · simp [hs, ht]

/-! ### The invariant -/

/-- The registry is consistent and every user has a buffer that is ready. -/
structure Serving (env : Env Pkt) (srv : GgServer) : Prop where
  inv : Inv srv
  ready : ∀ usr ∈ srv.user_list, ∃ sbuf, usr.sbuf = some sbuf ∧ Ready sbuf ∧
    sbuf.buffer_size = env.PACKET_SNDBUF_MAX

theorem serving_start (env : Env Pkt) : Serving env start := ⟨inv_start, by simp [start]⟩

theorem registered_of_mem {s : GgServer} {usr : GgUser} (h : usr ∈ s.user_list) {a : SockaddrIn}
    (ha : addrcmp usr.addr a = 0) : Registered s a := ⟨usr, h, ha⟩

/-- The user at an address is the one that a search finds. -/
theorem buffered_eq {s : GgServer} (hi : Inv s) {usr : GgUser} (h : usr ∈ s.user_list)
    {sbuf : Sendbuf} (hs : usr.sbuf = some sbuf) {a : SockaddrIn} (ha : addrcmp usr.addr a = 0) :
    buffered s a = pending sbuf := by
  have hnd := hi.keys
  rw [GgServer.keys_eq] at hnd
  obtain ⟨v, hv⟩ : ∃ v, s.user_list.find? (fun u => addrcmp u.addr a = 0) = some v := by
    rw [← Option.isSome_iff_exists, List.find?_isSome]
    exact ⟨usr, h, by simpa using ha⟩
  have hva : addrcmp v.addr a = 0 := by simpa using List.find?_some hv
  have hvu : v = usr := by
    refine List.inj_on_of_nodup_map hnd (List.mem_of_find?_eq_some hv) h ?_
    exact ((addrcmp_eq_zero_iff _ _).1 hva).trans ((addrcmp_eq_zero_iff _ _).1 ha).symm
  obtain ⟨_, _, _, _, _, _⟩ := usr
  cases hs
  unfold buffered
  rw [hv, hvu]

/-! ### What a user's buffer sends -/

/-- The effects of a buffer go to the address of its user. -/
theorem attempted_map (a addr : SockaddrIn) (es : List Libsendbuf.Ev) :
    (es.map (Ev.sendbuf addr : _ → Ev Pkt)).flatMap (Ev.attempted a) =
      if addrcmp addr a = 0 then es.flatMap offered else [] := by
  rw [List.flatMap_map]
  split_ifs with h
  · simp only [Ev.attempted, if_pos h]
  · simp only [Ev.attempted, if_neg h]
    exact List.flatMap_eq_nil_iff.2 fun _ _ => rfl

/-- Effects none of which moves the timer. -/
theorem armed_fixed {es : List (Ev Pkt)} {a : SockaddrIn} {b : Bool}
    (h : ∀ e ∈ es, e.armed a b = b) : es.foldl (Ev.armed a) b = b := by
  induction es with
  | nil => rfl
  | cons e es ih =>
    rw [List.foldl_cons, h e List.mem_cons_self]
    exact ih fun e' he' => h e' (List.mem_cons_of_mem _ he')

/-- Calls of `send_func` do not touch the timer. -/
theorem armed_map {es : List Libsendbuf.Ev} (h : ∀ e ∈ es, timer e = none) (a addr : SockaddrIn)
    (b : Bool) : (es.map (Ev.sendbuf addr : _ → Ev Pkt)).foldl (Ev.armed a) b = b := by
  apply armed_fixed
  intro e' he'
  obtain ⟨e, he, rfl⟩ := List.mem_map.1 he'
  simp only [Ev.armed, h e he, Option.getD_none, ite_self]

/-- A timer that is armed stays so, unless it is disarmed. -/
theorem armed_kept {es : List Libsendbuf.Ev} (h : ∀ e ∈ es, timer e ≠ some false)
    {a addr : SockaddrIn} {b : Bool} (hb : addrcmp addr a = 0 → b = true) :
    (es.map (Ev.sendbuf addr : _ → Ev Pkt)).foldl (Ev.armed a) b = b := by
  apply armed_fixed
  intro e' he'
  obtain ⟨e, he, rfl⟩ := List.mem_map.1 he'
  have hne := h e he
  simp only [Ev.armed]
  split_ifs with ha
  · rw [hb ha]
    rcases ht : timer e with _ | _ | _
    · rfl
    · exact absurd ht hne
    · rfl
  · rfl

/-- What `user_del` sends: to the user removed what its buffer holds and the closing datagram,
and nothing to anyone else. -/
theorem attempted_del {env : Env Pkt} {s : GgServer} (hs : Serving env s) {net : Net}
    (hw : net.World) {usr : GgUser} (h : usr ∈ s.user_list) (a : SockaddrIn) :
    (delEvs net usr : List (Ev Pkt)).flatMap (Ev.attempted a) =
      if addrcmp usr.addr a = 0 then atOnce (buffered s a) ++ [[]] else [] := by
  obtain ⟨sbuf, hsbuf, hready, -⟩ := hs.ready usr h
  unfold delEvs user_send
  rw [hsbuf, List.flatMap_append, attempted_map, offered_free hready (hw.wholeOrFail usr)]
  by_cases ha : addrcmp usr.addr a = 0
  · rw [if_pos ha, if_pos ha, buffered_eq hs.inv h hsbuf ha]
    simp [Ev.attempted, ha]
  · simp [Ev.attempted, ha]

/-- `user_del` disarms the timer of the user removed, and no other. -/
theorem armed_del {env : Env Pkt} {s : GgServer} (hs : Serving env s) (net : Net) {usr : GgUser}
    (h : usr ∈ s.user_list) (a : SockaddrIn) (b : Bool) :
    (delEvs net usr : List (Ev Pkt)).foldl (Ev.armed a) b =
      if addrcmp usr.addr a = 0 then false else b := by
  obtain ⟨sbuf, hsbuf, -⟩ := hs.ready usr h
  unfold delEvs user_send sendbuf_free
  simp only [hsbuf]
  rw [List.foldl_append, List.foldl_cons, List.foldl_nil, List.map_cons, List.foldl_cons,
    armed_map (timer_flush _ _)]
  simp only [Ev.armed, timer, Option.getD_some]

/-! ### One step -/

/-- What a step that keeps to the rules has done. -/
structure StepOk (env : Env Pkt) (s t : GgServer) (out : List (Ev Pkt)) : Prop where
  serving : Serving env t
  peer : ∀ a, PeerStep s t a (out.flatMap (Ev.attempted a))
  armed : ∀ a, out.foldl (Ev.armed a) (decide (Registered s a)) = decide (Registered t a)

/-- A user is added or removed: the others stay registered. -/
theorem registered_cons {s t : GgServer} {usr : GgUser} (h : t.user_list = usr :: s.user_list)
    (a : SockaddrIn) : Registered t a ↔ addrcmp usr.addr a = 0 ∨ Registered s a := by
  unfold Registered
  rw [h]
  simp only [List.mem_cons, exists_eq_or_imp]

/-- The users that are left were there before. -/
theorem mem_of_removed {s : GgServer} {usr : GgUser} {l₁ l₂ : List GgUser}
    (hl : s.user_list = l₁ ++ usr :: l₂) : ∀ v ∈ l₁ ++ l₂, v ∈ s.user_list := by
  intro v hv
  rw [hl]
  exact ((List.sublist_cons_self _ _).append_left _).subset hv

/-- Without the user removed, its address is not registered. -/
theorem registered_removed {s t : GgServer} (hi : Inv s) {usr : GgUser} {l₁ l₂ : List GgUser}
    (hl : s.user_list = l₁ ++ usr :: l₂) (ht : t.user_list = l₁ ++ l₂) (a : SockaddrIn) :
    Registered t a ↔ ¬ addrcmp usr.addr a = 0 ∧ Registered s a := by
  have hnd := hi.keys
  rw [GgServer.keys_eq] at hnd
  rw [hl, List.map_append, List.map_cons, List.nodup_middle, List.nodup_cons,
    ← List.map_append] at hnd
  unfold Registered
  rw [ht]
  constructor
  · rintro ⟨v, hv, hva⟩
    refine ⟨fun hua => hnd.1 ?_, v, mem_of_removed hl v hv, hva⟩
    rw [addrcmp_eq_zero_iff] at hua hva
    exact List.mem_map.2 ⟨v, hv, hva.trans hua.symm⟩
  · rintro ⟨hua, v, hv, hva⟩
    rw [hl] at hv
    refine ⟨v, ?_, hva⟩
    rcases List.mem_append.1 hv with hv | hv
    · exact List.mem_append_left _ hv
    · rcases List.mem_cons.1 hv with rfl | hv
      · exact absurd hva hua
      · exact List.mem_append_right _ hv

/-- The owner is sent no datagram, and it arms no timer. -/
theorem Ev.Owner.unsent {e : Ev Pkt} (h : e.Owner) (a : SockaddrIn) (b : Bool) :
    e.attempted a = [] ∧ e.armed a b = b := by
  cases e <;> first | exact ⟨rfl, rfl⟩ | exact h.elim

theorem armed_owner {out : List (Ev Pkt)} (h : ∀ e ∈ out, e.Owner) (a : SockaddrIn) (b : Bool) :
    out.foldl (Ev.armed a) b = b :=
  armed_fixed fun e he => ((h e he).unsent a b).2

/-- Removal of a linked user. -/
theorem del_ok {env : Env Pkt} {s t : GgServer} (hs : Serving env s) {net : Net} (hw : net.World)
    (ht : Inv t) {usr : GgUser} {l₁ l₂ : List GgUser} (hl : s.user_list = l₁ ++ usr :: l₂)
    (htl : t.user_list = l₁ ++ l₂) : StepOk env s t (delEvs net usr) := by
  have hmem : usr ∈ s.user_list := by rw [hl]; simp
  have hreg := registered_removed hs.inv hl htl
  refine ⟨⟨ht, fun v hv => ?_⟩, fun a => ?_, fun a => ?_⟩
  · rw [htl] at hv
    exact hs.ready v (mem_of_removed hl v hv)
  · rw [attempted_del hs hw hmem]
    split_ifs with ha
    · exact .closing ⟨usr, hmem, ha⟩ fun h => ((hreg a).1 h).1 ha
    · exact .idle ((hreg a).trans (and_iff_right ha))
  · rw [armed_del hs net hmem]
    split_ifs with ha
    · exact (decide_eq_false fun h => ((hreg a).1 h).1 ha).symm
    · exact decide_eq_decide.2 ((hreg a).trans (and_iff_right ha)).symm

/-- A datagram. -/
theorem datagram_ok {env : Env Pkt} (hf : env.Finds) (hk : env.KeepsBuffers)
    (hb : env.SndbufFits) {s t : GgServer} {i : Input} {out : List (Ev Pkt)} (hs : Serving env s)
    (hw : i.net.World) (h : Step env s i out t) : StepOk env s t out := by
  have ht := step_inv hf hk.registry hs.inv h
  cases received hf hs.inv h with
  | error => exact ⟨hs, fun _ => .idle Iff.rfl, fun _ => rfl⟩
  | @added remote buf hr hnew _ mem _ =>
    have hreg : ∀ a, Registered { s with
        ptrs := s.ptrs + 1
        user_id_count := int32 (s.user_id_count + 1)
        user_count := int32 (s.user_count + 1)
        user_list := addedUser env s remote mem :: s.user_list } a ↔
          addrcmp (addedUser env s remote mem).addr a = 0 ∨ Registered s a := registered_cons rfl
    have hkey : key (addedUser env s remote mem).addr = key remote :=
      key_addrcpy ⟨0, 0, 0, 0⟩ remote
    refine ⟨⟨ht, fun v hv => ?_⟩, fun a => ?_, fun a => ?_⟩
    · rcases List.mem_cons.1 hv with rfl | hv
      · exact ⟨_, rfl, ready_start mem 200 hb.pos hb.small, rfl⟩
      · exact hs.ready v hv
    · by_cases ha : addrcmp (addedUser env s remote mem).addr a = 0
      · -- its address was not registered, so this is an opening
        have hold : ¬ Registered s a := by
          rw [registered_iff, ← (addrcmp_eq_zero_iff _ _).1 ha, hkey]
          exact hnew
        simpa [user_send, Ev.attempted, ha, offered] using
          PeerStep.opening hold ((hreg a).2 (.inl ha))
      · simpa [user_send, Ev.attempted, ha] using
          PeerStep.idle ((hreg a).trans (or_iff_right ha))
    · by_cases ha : addrcmp (addedUser env s remote mem).addr a = 0
      · rw [decide_eq_true ((hreg a).2 (.inl ha))]
        simp [user_send, Ev.armed, ha, timer]
      · have hd : decide (Registered _ a) = decide (Registered s a) :=
          decide_eq_decide.2 ((hreg a).trans (or_iff_right ha))
        rw [hd]
        simp [user_send, Ev.armed, ha]
  | @removed remote buf hr hlen usr l₁ l₂ hl hkey => exact del_ok hs hw ht hl rfl
  | @handed remote buf t out hr hlen hold hkeep hout =>
    have hslots : t.slots = s.slots :=
      hkeep GgServer.slots fun _ hh srv usr pkt => (hk _ hh srv usr pkt).1
    have hreg : ∀ a, Registered t a ↔ Registered s a := by
      intro a
      rw [registered_iff, registered_iff, GgServer.keys, GgServer.keys, entries_of_slots hslots]
    refine ⟨⟨ht, fun v hv => ?_⟩, fun a => ?_, fun a => ?_⟩
    · have hmem : (v.ptr, v.addr, v.sbuf) ∈ s.slots := by
        rw [← hslots]
        exact List.mem_map_of_mem hv
      obtain ⟨u, hu, heq⟩ := List.mem_map.1 hmem
      obtain ⟨sbuf, hsbuf, hready⟩ := hs.ready u hu
      simp only [Prod.mk.injEq] at heq
      exact ⟨sbuf, heq.2.2 ▸ hsbuf, hready⟩
    · rw [List.flatMap_eq_nil_iff.2 fun e he => ((hout e he).unsent a false).1]
      exact .idle (hreg a)
    · rw [armed_owner hout]
      exact decide_eq_decide.2 (hreg a).symm

/-- An operation on the buffer of a user changes that buffer and nothing else. -/
theorem onSbuf_cases {env : Env Pkt} {s t : GgServer} {usr : ℕ} {op : GgUser → Libsendbuf.Op}
    {out : List (Ev Pkt)} (hs : Serving env s) (h : onSbuf s usr op = some (t, out)) :
    ∃ u ∈ s.user_list, ∃ sbuf, u.sbuf = some sbuf ∧ Ready sbuf ∧
      sbuf.buffer_size = env.PACKET_SNDBUF_MAX ∧
      out = (exec sbuf (op u)).2.map (Ev.sendbuf u.addr) ∧
      t.entries = s.entries ∧ t.user_count = s.user_count ∧ t.ptrs = s.ptrs ∧
      ∀ v ∈ t.user_list, v ∈ s.user_list ∨ v.sbuf = some (exec sbuf (op u)).1 := by
  unfold onSbuf at h
  rcases hfind : s.user_list.find? (·.ptr = usr) with _ | u
  · simp only [hfind, reduceCtorEq] at h
  have hmem := List.mem_of_find?_eq_some hfind
  obtain ⟨sbuf, hsbuf, hready, hsize⟩ := hs.ready u hmem
  simp only [hfind, hsbuf, Option.some.injEq, Prod.mk.injEq] at h
  obtain ⟨rfl, rfl⟩ := h
  refine ⟨u, hmem, sbuf, hsbuf, hready, hsize, rfl, ?_, rfl, rfl, fun v hv => ?_⟩
  · unfold GgServer.entries
    rw [List.map_map]
    refine List.map_congr_left fun v _ => ?_
    by_cases hv : v.ptr = usr
    · simp only [Function.comp_apply, if_pos hv]
    · simp only [Function.comp_apply, if_neg hv]
  · obtain ⟨w, hw, rfl⟩ := List.mem_map.1 hv
    by_cases hw' : w.ptr = usr
    · rw [if_pos hw']
      exact .inr rfl
    · rw [if_neg hw']
      exact .inl hw

/-- An append, or a turn of the timer. -/
theorem onSbuf_ok {env : Env Pkt} {s t : GgServer} {usr : ℕ} {op : GgUser → Libsendbuf.Op}
    {out : List (Ev Pkt)} (hs : Serving env s) (h : onSbuf s usr op = some (t, out))
    (hw : ∀ u, WholeOrFail (op u).send_func) (hsize : ∀ u, (op u).size ≤ env.PACKET_SNDBUF_MAX) :
    StepOk env s t out := by
  obtain ⟨u, hmem, sbuf, hsbuf, hready, hbs, rfl, he, hc, hp, hl⟩ := onSbuf_cases hs h
  obtain ⟨hready', hoff⟩ := ready_exec hready (hw u) (by rw [hbs]; exact hsize u)
  have hreg : ∀ a, Registered t a ↔ Registered s a := by
    intro a
    rw [registered_iff, registered_iff, GgServer.keys, GgServer.keys, he]
  refine ⟨⟨hs.inv.congr he hc hp, fun v hv => ?_⟩, fun a => ?_, fun a => ?_⟩
  · rcases hl v hv with hv | hv
    · exact hs.ready v hv
    · exact ⟨_, hv, hready', by rw [buffer_size_exec, hbs]⟩
  · rw [attempted_map]
    by_cases ha : addrcmp u.addr a = 0
    · have hra := registered_of_mem hmem ha
      rw [if_pos ha]
      by_cases hnil : pending sbuf = []
      · have hnone : (exec sbuf (op u)).2.flatMap offered = [] := by
          rcases hoff with hoff | hoff
          · exact hoff
          · rw [hoff, hnil]
            rfl
        rw [hnone]
        exact .idle (hreg a)
      · rcases hoff with hoff | hoff
        · rw [hoff]
          exact .idle (hreg a)
        · have hbuf := buffered_eq hs.inv hmem hsbuf ha
          rw [hoff, atOnce, if_neg hnil, ← hbuf]
          exact .data hra ((hreg a).2 hra) (by rwa [hbuf])
    · rw [if_neg ha]
      exact .idle (hreg a)
  · refine (armed_kept (fun e he => timer_exec he) fun ha => ?_).trans
      (decide_eq_decide.2 (hreg a).symm)
    exact decide_eq_true (registered_of_mem hmem ha)

/-- Every step keeps to the rules. -/
theorem session_step {env : Env Pkt} (hf : env.Finds) (hk : env.KeepsBuffers)
    (hb : env.SndbufFits) {s t : GgServer} {op : SessionOp} {out : List (Ev Pkt)}
    (hs : Serving env s) (h : SessionStep env s op out t) : StepOk env s t out := by
  cases op with
  | datagram i => exact datagram_ok hf hk hb hs h.1 h.2.2
  | append net usr token =>
    obtain ⟨hw, -, hlen, h⟩ := h
    exact onSbuf_ok hs h (fun u => hw.wholeOrFail u) fun _ => hlen
  | timer net usr =>
    obtain ⟨hw, h⟩ := h
    have hpos := hb.pos
    exact onSbuf_ok hs h (fun u => hw.wholeOrFail u) fun _ => by
      show (0 : ℤ) ≤ _
      omega

/-- `user_del` of a user, as one step. -/
theorem user_del_ok {env : Env Pkt} {s : GgServer} (hs : Serving env s) {net : Net}
    (hw : net.World) {usr : GgUser} (h : usr ∈ s.user_list) :
    ∃ t, user_del net s usr = .ok (t, (delEvs net usr : List (Ev Pkt))) ∧
      StepOk env s t (delEvs net usr : List (Ev Pkt)) ∧
      t.user_list.length + 1 = s.user_list.length ∧
      (∀ a, Registered t a ↔ ¬ addrcmp usr.addr a = 0 ∧ Registered s a) ∧
      ∀ a, Registered t a → buffered t a = buffered s a := by
  obtain ⟨l₁, l₂, hl, hdel⟩ := user_del_linked Pkt hs.inv h net
  have hentries : s.entries = l₁.map (fun u => (u.ptr, u.addr)) ++
      (usr.ptr, usr.addr) :: l₂.map fun u => (u.ptr, u.addr) := by
    rw [GgServer.entries, hl, List.map_append, List.map_cons]
  have hinv : Inv { s with user_list := l₁ ++ l₂, user_count := int32 (s.user_count - 1) } :=
    hs.inv.removed hentries (by rw [GgServer.entries, List.map_append]) rfl rfl
  have hok := del_ok hs hw hinv hl rfl
  refine ⟨_, hdel, hok, ?_, registered_removed hs.inv hl rfl, ?_⟩
  · rw [hl]
    simp only [List.length_append, List.length_cons]
    omega
  · rintro a ⟨v, hv, hva⟩
    obtain ⟨sbuf, hsbuf, -⟩ := hok.serving.ready v hv
    rw [buffered_eq hinv hv hsbuf hva,
      buffered_eq hs.inv (mem_of_removed hl v hv) hsbuf hva]

/-! ### Runs -/

/-- What a run sends to every peer, and the timers after it. -/
theorem run_sessions {env : Env Pkt} (hf : env.Finds) (hk : env.KeepsBuffers)
    (hb : env.SndbufFits) {t : GgServer} {ops : List SessionOp} {es : List (Ev Pkt)}
    (h : Run (SessionStep env) start ops es t) :
    Serving env t ∧ ∀ a, Sessions (decide (Registered t a)) (es.flatMap (Ev.attempted a)) ∧
      es.foldl (Ev.armed a) false = decide (Registered t a) := by
  induction h with
  | nil =>
    refine ⟨serving_start env, fun a => ?_⟩
    have hnone : decide (Registered start a) = false := by simp [Registered, start]
    rw [hnone]
    exact ⟨.nil, rfl⟩
  | snoc _ hstep ih =>
    obtain ⟨hs, hsess⟩ := ih
    have hok := session_step hf hk hb hs hstep
    refine ⟨hok.serving, fun a => ⟨?_, ?_⟩⟩
    · rw [List.flatMap_append]
      exact (hsess a).1.step (hok.peer a)
    · rw [List.foldl_append, (hsess a).2]
      exact hok.armed a

/-- The loop of `gg_server_stop` ends, having removed every user: each is sent what its buffer
holds and one closing datagram. -/
theorem stop_sessions {env : Env Pkt} {net : Net} (hw : net.World) {fuel : ℕ} {s : GgServer}
    (hs : Serving env s) (hfuel : s.user_list.length < fuel) :
    ∃ (t : GgServer) (out : List (Ev Pkt)), gg_server_stop net fuel s = some (.ok (t, out)) ∧
      t.user_list = [] ∧ ∀ a,
        out.flatMap (Ev.attempted a) =
          (if Registered s a then atOnce (buffered s a) ++ [[]] else []) ∧
        out.foldl (Ev.armed a) (decide (Registered s a)) = false := by
  induction fuel generalizing s with
  | zero => omega
  | succ fuel ih =>
    unfold gg_server_stop
    rcases hl : s.user_list with _ | ⟨usr, l⟩
    · have hnone : ∀ a, ¬ Registered s a := by simp [Registered, hl]
      exact ⟨s, [], rfl, hl, fun a => ⟨(if_neg (hnone a)).symm, decide_eq_false (hnone a)⟩⟩
    · have hmem : usr ∈ s.user_list := by
        rw [hl]
        exact List.mem_cons_self
      obtain ⟨u, hdel, hok, hlen, hreg, hbuf⟩ := user_del_ok hs hw hmem
      -- the list is shorter by one user
      obtain ⟨t, out, hstop, hnil, hout⟩ := ih hok.serving (by omega)
      simp only [hdel, hstop]
      refine ⟨t, _, rfl, hnil, fun a => ⟨?_, ?_⟩⟩
      · rw [List.flatMap_append, (hout a).1, attempted_del hs hw hmem]
        by_cases ha : addrcmp usr.addr a = 0
        · have hu : ¬ Registered u a := fun h => ((hreg a).1 h).1 ha
          rw [if_pos ha, if_neg hu, if_pos (registered_of_mem hmem ha), List.append_nil]
        · rw [if_neg ha, List.nil_append]
          by_cases hra : Registered s a
          · have hu : Registered u a := (hreg a).2 ⟨ha, hra⟩
            rw [if_pos hu, if_pos hra, hbuf a hu]
          · rw [if_neg fun h => hra ((hreg a).1 h).2, if_neg hra]
      · rw [List.foldl_append, hok.armed a]
        exact (hout a).2

/-- **Session framing.**  In every run and for every peer address: the datagrams attempted are
complete sessions, and an open one exactly while the peer is registered, and only then is the
timer of its buffer armed; every next step sends what its effect on the registration allows.
After any run `gg_server_stop` ends, with one closing datagram for every user that was
registered, what its buffer held before it. -/
theorem session_framing {env : Env Pkt} (hf : env.Finds) (hk : env.KeepsBuffers)
    (hb : env.SndbufFits) {t : GgServer} {ops : List SessionOp} {es : List (Ev Pkt)}
    (h : Run (SessionStep env) start ops es t) :
    (∀ a, Sessions (decide (Registered t a)) (es.flatMap (Ev.attempted a)) ∧
      es.foldl (Ev.armed a) false = decide (Registered t a)) ∧
    (∀ i, i.net.World → i.net.Allocates → ∃ out u, SessionStep env t (.datagram i) out u) ∧
    (∀ op out u, SessionStep env t op out u →
      ∀ a, PeerStep t u a (out.flatMap (Ev.attempted a))) ∧
    ∀ net, net.World → ∀ fuel, t.user_list.length < fuel →
      ∃ (u : GgServer) (out : List (Ev Pkt)), gg_server_stop net fuel t = some (.ok (u, out)) ∧
        u.user_list = [] ∧ ∀ a,
          out.flatMap (Ev.attempted a) =
            (if Registered t a then atOnce (buffered t a) ++ [[]] else []) ∧
          Sessions false ((es ++ out).flatMap (Ev.attempted a)) ∧
          (es ++ out).foldl (Ev.armed a) false = false := by
  obtain ⟨hs, hpeer⟩ := run_sessions hf hk hb h
  refine ⟨hpeer, fun i hw ha => ?_, fun op out u hstep => ?_, fun net hw fuel hfuel => ?_⟩
  · obtain ⟨out, u, hstep⟩ := step_total hf hs.inv ha
    exact ⟨out, u, hw, ha, hstep⟩
  · exact (session_step hf hk hb hs hstep).peer
  · obtain ⟨u, out, hstop, hnil, hout⟩ := stop_sessions hw hs hfuel
    have hnone : ∀ a, ¬ Registered u a := by simp [Registered, hnil]
    refine ⟨u, out, hstop, hnil, fun a => ⟨(hout a).1, ?_, ?_⟩⟩
    · -- the loop closes the session that the run left open, if any
      have hclose : PeerStep t u a (out.flatMap (Ev.attempted a)) := by
        rw [(hout a).1]
        split_ifs with hra
        · exact .closing hra (hnone a)
        · exact .idle (iff_of_false (hnone a) hra)
      have hsess := (hpeer a).1.step hclose
      rwa [decide_eq_false (hnone a), ← List.flatMap_append] at hsess
    · rw [List.foldl_append, (hpeer a).2]
      exact (hout a).2

/-- A transport that takes everything, for the server and the buffers alike. -/
def loopback : Net where
  calloc := true
  malloc := some Mem.zeros
  sendto := fun _ data => data.length
  cb_usr_send := fun _ data _ => data.length

theorem loopback_world : loopback.World := ⟨fun _ _ _ => rfl, fun _ _ => .inr rfl⟩

theorem listEnv_keepsBuffers : listEnv.KeepsBuffers := by
  intro handle_packet h
  cases h

theorem listEnv_fits : listEnv.SndbufFits := ⟨by decide, by decide⟩

/-- A probe registers, is sent two bytes and leaves. -/
def visit : List SessionOp :=
  [.datagram ⟨some (⟨2, 4430, 1, 0⟩, [1]), loopback, 0⟩, .append loopback 0 [104, 105],
    .datagram ⟨some (⟨2, 4430, 1, 0⟩, []), loopback, 0⟩]

theorem session_framing_visit :
    ∃ es t, Run (SessionStep listEnv) start visit es t ∧
      es.flatMap (Ev.attempted ⟨2, 4430, 1, 0⟩) = [[], [104, 105], []] ∧
      Sessions (decide (Registered t ⟨2, 4430, 1, 0⟩))
        (es.flatMap (Ev.attempted ⟨2, 4430, 1, 0⟩)) := by
  obtain ⟨es, t, hrun, hsent⟩ : ∃ es t, Run (SessionStep listEnv) start visit es t ∧
      es.flatMap (Ev.attempted ⟨2, 4430, 1, 0⟩) = [[], [104, 105], []] := by
    refine ⟨_, _, Run.cons ⟨loopback_world, ⟨rfl, rfl⟩, rfl⟩
      (Run.cons ⟨loopback_world, by decide, by decide, rfl⟩
        (Run.single ⟨loopback_world, ⟨rfl, rfl⟩, rfl⟩)), ?_⟩
    decide
  refine ⟨es, t, hrun, hsent, ?_⟩
  exact ((session_framing listEnv_finds listEnv_keepsBuffers listEnv_fits hrun).1 _).1

end Libglouglou
