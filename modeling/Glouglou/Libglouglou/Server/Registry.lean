import Glouglou.Libglouglou.Server.Basic

/-!
# The registry of probes

The list of users as a set of addresses: two socket addresses are the same when `addrcmp` says
so, that is when they have the same `key`, and `addrcpy` copies just that.  A callback adds the
key of the sender, removes it, or leaves the registry alone (`received`, `step_cases`).
-/

open CInt Libsendbuf Transducer

namespace Libglouglou

variable {Pkt : Type}

/-! ### Socket addresses -/

/-- What `addrcmp` compares. -/
def key (a : SockaddrIn) : UInt32 × UInt16 × UInt16 := (a.sin_addr, a.sin_port, a.sin_family)

theorem addrcmp_eq_zero_iff (a b : SockaddrIn) : addrcmp a b = 0 ↔ key a = key b := by
  unfold addrcmp key
  split_ifs <;> simp_all

@[simp] theorem key_addrcpy (dst src : SockaddrIn) : key (addrcpy dst src) = key src := rfl

/-! ### What is assumed of the code around the server -/

/-- `user_find` returns the entry whose address compares equal, or `NULL` if there is none. -/
structure Env.Finds (env : Env Pkt) : Prop where
  found : ∀ l remote usr, env.user_find l remote = some usr →
    usr ∈ l ∧ addrcmp usr.addr remote = 0
  absent : ∀ l remote, env.user_find l remote = none → ∀ usr ∈ l, addrcmp usr.addr remote ≠ 0

/-- The registry: the users that are linked, by their addresses in memory and on the network. -/
def GgServer.entries (srv : GgServer) : List (ℕ × SockaddrIn) :=
  srv.user_list.map fun usr => (usr.ptr, usr.addr)

/-- `handle_packet` leaves the registry alone. -/
def Env.KeepsRegistry (env : Env Pkt) : Prop :=
  ∀ handle_packet, env.handle_packet = some handle_packet → ∀ srv usr pkt,
    (handle_packet srv usr pkt).entries = srv.entries ∧
    (handle_packet srv usr pkt).user_count = srv.user_count ∧
    (handle_packet srv usr pkt).ptrs = srv.ptrs

/-- `sendbuf_new` gets its memory. -/
def Net.Allocates (net : Net) : Prop := net.calloc = true ∧ net.malloc.isSome

instance (net : Net) : Decidable net.Allocates := inferInstanceAs (Decidable (_ ∧ _))

/-! ### The invariant -/

/-- The keys of the linked users. -/
def GgServer.keys (srv : GgServer) : List (UInt32 × UInt16 × UInt16) :=
  srv.entries.map fun e => key e.2

theorem GgServer.keys_eq (srv : GgServer) :
    srv.keys = srv.user_list.map fun usr => key usr.addr := by
  rw [keys, entries, List.map_map]
  rfl

/-- The counter is the length of the list as an `int`, and every user has an address in memory
and one on the network of its own. -/
structure Inv (srv : GgServer) : Prop where
  count : srv.user_count = int32 srv.entries.length
  fresh : ∀ e ∈ srv.entries, e.1 < srv.ptrs
  ptrs : (srv.entries.map (·.1)).Nodup
  keys : srv.keys.Nodup

theorem inv_start : Inv start where
  count := by simp [start, GgServer.entries]
  fresh := by simp [start, GgServer.entries]
  ptrs := by simp [start, GgServer.entries]
  keys := by simp [start, GgServer.keys, GgServer.entries]

/-- The invariant only looks at the registry. -/
theorem Inv.congr {s t : GgServer} (hi : Inv s) (he : t.entries = s.entries)
    (hc : t.user_count = s.user_count) (hp : t.ptrs = s.ptrs) : Inv t where
  count := by rw [hc, he, hi.count]
  fresh := by rw [he, hp]; exact hi.fresh
  ptrs := by rw [he]; exact hi.ptrs
  keys := by rw [GgServer.keys, he]; exact hi.keys

/-- The invariant survives the removal of an entry. -/
theorem Inv.removed {s t : GgServer} (hi : Inv s) {l₁ l₂ : List (ℕ × SockaddrIn)}
    {e : ℕ × SockaddrIn} (hs : s.entries = l₁ ++ e :: l₂) (he : t.entries = l₁ ++ l₂)
    (hc : t.user_count = int32 (s.user_count - 1)) (hp : t.ptrs = s.ptrs) : Inv t := by
  have hsub : (l₁ ++ l₂).Sublist s.entries := by
    rw [hs]
    exact (List.sublist_cons_self _ _).append_left _
  refine ⟨?_, ?_, ?_, ?_⟩
  · rw [hc, he, hi.count, hs]
    simp only [List.length_append, List.length_cons]
    rw [sub_eq_add_neg, int32_add_int32]
    congr 1
    push_cast
    ring
  · rw [he, hp]
    exact fun e' he' => hi.fresh e' (hsub.subset he')
  · rw [he]
    exact hi.ptrs.sublist (hsub.map _)
  · rw [GgServer.keys, he]
    exact hi.keys.sublist (hsub.map _)

/-- A linked user is unlinked, and only this one. -/
theorem list_remove {l : List GgUser} {usr : GgUser} (h : usr ∈ l) (hnd : (l.map (·.ptr)).Nodup) :
    ∃ l₁ l₂, l = l₁ ++ usr :: l₂ ∧ LIST_REMOVE l usr = some (l₁ ++ l₂) := by
  obtain ⟨b, l₁, l₂, -, hb, hl, herase⟩ :=
    List.exists_of_eraseP (p := fun v : GgUser => decide (v.ptr = usr.ptr)) h (by simp)
  have hbl : b ∈ l := by rw [hl]; simp
  have hbu : b = usr := List.inj_on_of_nodup_map hnd hbl h (by simpa using hb)
  subst hbu
  refine ⟨l₁, l₂, hl, ?_⟩
  unfold LIST_REMOVE
  rw [if_pos (List.any_eq_true.2 ⟨b, h, by simp⟩), herase]

/-- What `user_del` does to the world: the buffer is flushed and freed, then the user is told. -/
def delEvs (net : Net) (usr : GgUser) : List (Ev Pkt) :=
  (match usr.sbuf with
    | none => []
    | some sbuf => (sendbuf_free (net.cb_usr_send usr) sbuf).map (Ev.sendbuf usr.addr)) ++
  (user_send net usr []).2

/-- What `user_del` leaves, if it ends. -/
theorem user_del_shrinks {net : Net} {s t : GgServer} {usr : GgUser} {out : List (Ev Pkt)}
    (h : user_del net s usr = .ok (t, out)) :
    t.user_list.Sublist s.user_list ∧ t.ptrs = s.ptrs ∧ out = delEvs net usr := by
  unfold user_del LIST_REMOVE at h
  split_ifs at h
  simp only [Except.ok.injEq, Prod.mk.injEq] at h
  obtain ⟨rfl, rfl⟩ := h
  exact ⟨List.eraseP_sublist, rfl, rfl⟩

/-- `user_del` of a linked user unlinks it. -/
theorem user_del_linked (Pkt : Type) {s : GgServer} (hi : Inv s) {usr : GgUser}
    (h : usr ∈ s.user_list) (net : Net) :
    ∃ l₁ l₂, s.user_list = l₁ ++ usr :: l₂ ∧
      (user_del net s usr : Except (List (Ev Pkt)) _) =
        .ok ({ s with user_list := l₁ ++ l₂, user_count := int32 (s.user_count - 1) },
          delEvs net usr) := by
  have hnd : (s.user_list.map (·.ptr)).Nodup := by
    have := hi.ptrs
    rwa [GgServer.entries, List.map_map] at this
  obtain ⟨l₁, l₂, hl, hrem⟩ := list_remove h hnd
  unfold user_del
  rw [hrem]
  exact ⟨l₁, l₂, hl, rfl⟩

/-- `user_del` of a user that was never linked crashes, after its effects. -/
theorem user_del_unlinked {s : GgServer} {usr : GgUser} (h : ∀ v ∈ s.user_list, v.ptr ≠ usr.ptr)
    (net : Net) : (user_del net s usr : Except (List (Ev Pkt)) _) = .error (delEvs net usr) := by
  have hany : ¬ s.user_list.any (·.ptr = usr.ptr) := by simpa using h
  unfold user_del LIST_REMOVE
  rw [if_neg hany]
  rfl

/-- The user that `user_add` links. -/
def addedUser (env : Env Pkt) (s : GgServer) (remote : SockaddrIn) (mem : Mem) : GgUser :=
  { newUser s remote with sbuf := some (Libsendbuf.start mem env.PACKET_SNDBUF_MAX 200) }

/-- `user_add` with memory for the send buffer links a user with the address of the sender. -/
theorem user_add_linked (env : Env Pkt) {net : Net} (hcalloc : net.calloc = true) {mem : Mem}
    (hmem : net.malloc = some mem) (s : GgServer) (remote : SockaddrIn) :
    user_add env net s remote =
      .ok ({ s with
          ptrs := s.ptrs + 1
          user_id_count := int32 (s.user_id_count + 1)
          user_count := int32 (s.user_count + 1)
          user_list := addedUser env s remote mem :: s.user_list },
        some (addedUser env s remote mem),
        [.sendbuf (addedUser env s remote mem).addr (.timer_add (int32 (200 * 1000)))]) := by
  simp only [user_add, sendbuf_new, hcalloc, hmem, if_true, List.map_cons, List.map_nil]
  rfl

/-- `user_add` without memory for the send buffer crashes in its error path, having told the
sender that it was removed. -/
theorem user_add_failed (env : Env Pkt) {net : Net} (ha : ¬ net.Allocates) {s : GgServer}
    (hfresh : ∀ e ∈ s.entries, e.1 < s.ptrs) (remote : SockaddrIn) :
    user_add env net s remote = .error (delEvs net (newUser s remote)) := by
  have hnone : sendbuf_new net.calloc net.malloc env.PACKET_SNDBUF_MAX 200 = (none, []) := by
    unfold sendbuf_new
    split_ifs with hcalloc
    · cases hmem : net.malloc with
      | none => rfl
      | some mem => exact absurd ⟨hcalloc, by rw [hmem]; rfl⟩ ha
    · rfl
  simp only [user_add, hnone]
  rw [user_del_unlinked]
  intro v hv
  exact (hfresh (v.ptr, v.addr) (List.mem_map_of_mem hv)).ne

/-- What `handle_packet` never changes, the packet loop does not change. -/
theorem pktLoop_keeps (env : Env Pkt) {β : Type} (obs : GgServer → β)
    {handle_packet : GgServer → ℕ → Pkt → GgServer}
    (hobs : ∀ srv usr pkt, obs (handle_packet srv usr pkt) = obs srv)
    (usr fuel : ℕ) (srv : GgServer) (buf_p : List UInt8) (buf_len : ℤ) :
    obs (pktLoop env handle_packet usr fuel srv buf_p buf_len).1 = obs srv := by
  induction fuel generalizing srv buf_p buf_len with
  | zero => rfl
  | succ fuel ih =>
    unfold pktLoop
    split_ifs
    · rcases env.pkt_decode buf_p buf_len with _ | ⟨pkt, buf_p', buf_len'⟩
      · rfl
      · exact (ih _ buf_p' buf_len').trans (hobs srv usr pkt)
    · rfl

/-- An effect on the owner of the server only. -/
def Ev.Owner : Ev Pkt → Prop
  | .handle_packet _ _ _ | .hello_res => True
  | _ => False

theorem pktLoop_owner (env : Env Pkt) (handle_packet : GgServer → ℕ → Pkt → GgServer)
    (usr fuel : ℕ) (srv : GgServer) (buf_p : List UInt8) (buf_len : ℤ) :
    ∀ e ∈ (pktLoop env handle_packet usr fuel srv buf_p buf_len).2, e.Owner := by
  induction fuel generalizing srv buf_p buf_len with
  | zero => simp [pktLoop]
  | succ fuel ih =>
    unfold pktLoop
    split_ifs
    · rcases env.pkt_decode buf_p buf_len with _ | ⟨pkt, buf_p', buf_len'⟩
      · simp
      · intro e he
        rcases List.mem_cons.1 he with rfl | he
        · trivial
        · exact ih _ buf_p' buf_len' e he
    · simp

/-- The user at an address, as the list has it. -/
theorem key_mem_keys {srv : GgServer} {usr : GgUser} (h : usr ∈ srv.user_list) :
    key usr.addr ∈ srv.keys := by
  rw [GgServer.keys_eq]
  exact List.mem_map_of_mem h

/-! ### What one callback does -/

/-- The ways a callback can end, whatever `user_find` returns: a receive error, a sender added, a
sender removed, or a datagram for the owner, who may not want any. -/
inductive Ended (env : Env Pkt) (s : GgServer) (i : Input) : List (Ev Pkt) → GgServer → Prop
  | error (hr : i.recvfrom = none) : Ended env s i [] s
  | added {remote : SockaddrIn} {buf : List UInt8} (hr : i.recvfrom = some (remote, buf))
      (hfind : env.user_find s.user_list remote = none) {usr : GgUser} {t : GgServer}
      {ev : List (Ev Pkt)} (hadd : user_add env i.net s remote = .ok (t, some usr, ev)) :
      Ended env s i (ev ++ (user_send i.net usr []).2 ++ [.hello_res]) t
  | removed {remote : SockaddrIn} {buf : List UInt8} (hr : i.recvfrom = some (remote, buf))
      {usr : GgUser} (hfind : env.user_find s.user_list remote = some usr)
      (hlen : env.ggpkt_receive_header buf = 0) {t : GgServer} {out : List (Ev Pkt)}
      (hdel : user_del i.net s usr = .ok (t, out)) : Ended env s i out t
  | unhandled {remote : SockaddrIn} {buf : List UInt8} (hr : i.recvfrom = some (remote, buf))
      {usr : GgUser} (hfind : env.user_find s.user_list remote = some usr)
      (hlen : env.ggpkt_receive_header buf ≠ 0) (hh : env.handle_packet = none) :
      Ended env s i [.hello_res] s
  | handed {remote : SockaddrIn} {buf : List UInt8} (hr : i.recvfrom = some (remote, buf))
      {usr : GgUser} (hfind : env.user_find s.user_list remote = some usr)
      (hlen : env.ggpkt_receive_header buf ≠ 0) {handle_packet : GgServer → ℕ → Pkt → GgServer}
      (hh : env.handle_packet = some handle_packet) {t : GgServer} {ev : List (Ev Pkt)}
      (hloop : pktLoop env handle_packet usr.ptr (i.fuel + 1) s buf
        (env.ggpkt_receive_header buf) = (t, ev)) :
      Ended env s i (ev ++ [.hello_res]) t

theorem ended {env : Env Pkt} {s t : GgServer} {i : Input} {out : List (Ev Pkt)}
    (h : Step env s i out t) : Ended env s i out t := by
  unfold Step cb_srv_receive at h
  rcases hr : i.recvfrom with _ | ⟨remote, buf⟩
  · simp only [hr, Except.ok.injEq, Prod.mk.injEq] at h
    obtain ⟨rfl, rfl⟩ := h
    exact .error hr
  simp only [hr] at h
  rcases hfind : env.user_find s.user_list remote with _ | usr
  · simp only [hfind] at h
    rcases hadd : user_add env i.net s remote with ev | ⟨u, _ | usr, ev⟩
    · simp [hadd] at h
    · simp [hadd] at h
    · simp only [hadd, Except.ok.injEq, Prod.mk.injEq] at h
      obtain ⟨rfl, rfl⟩ := h
      exact .added hr hfind hadd
  · simp only [hfind] at h
    by_cases hlen : env.ggpkt_receive_header buf = 0
    · rw [if_pos hlen] at h
      exact .removed hr hfind hlen h
    · rw [if_neg hlen] at h
      rcases hh : env.handle_packet with _ | handle_packet
      · simp only [hh, Except.ok.injEq, Prod.mk.injEq] at h
        obtain ⟨rfl, rfl⟩ := h
        exact .unhandled hr hfind hlen hh
      · simp only [hh, Except.ok.injEq, Prod.mk.injEq] at h
        obtain ⟨rfl, rfl⟩ := h
        exact .handed hr hfind hlen hh rfl

/-- The ways a callback can end on a consistent registry: a receive error, a sender added, a sender
removed, or packets handed to the owner. -/
inductive Received (env : Env Pkt) (s : GgServer) (i : Input) : List (Ev Pkt) → GgServer → Prop
  | error (hr : i.recvfrom = none) : Received env s i [] s
  | added {remote : SockaddrIn} {buf : List UInt8} (hr : i.recvfrom = some (remote, buf))
      (hnew : key remote ∉ s.keys) (hcalloc : i.net.calloc = true) {mem : Mem}
      (hmem : i.net.malloc = some mem) :
      Received env s i
        ([.sendbuf (addedUser env s remote mem).addr (.timer_add (int32 (200 * 1000)))] ++
          (user_send i.net (addedUser env s remote mem) []).2 ++ [.hello_res])
        { s with
          ptrs := s.ptrs + 1
          user_id_count := int32 (s.user_id_count + 1)
          user_count := int32 (s.user_count + 1)
          user_list := addedUser env s remote mem :: s.user_list }
  | removed {remote : SockaddrIn} {buf : List UInt8} (hr : i.recvfrom = some (remote, buf))
      (hlen : env.ggpkt_receive_header buf = 0) {usr : GgUser} {l₁ l₂ : List GgUser}
      (hl : s.user_list = l₁ ++ usr :: l₂) (hkey : key usr.addr = key remote) :
      Received env s i (delEvs i.net usr)
        { s with user_list := l₁ ++ l₂, user_count := int32 (s.user_count - 1) }
  | handed {remote : SockaddrIn} {buf : List UInt8} {t : GgServer} {out : List (Ev Pkt)}
      (hr : i.recvfrom = some (remote, buf)) (hlen : env.ggpkt_receive_header buf ≠ 0)
      (hold : key remote ∈ s.keys)
      (hkeep : ∀ {β : Type} (obs : GgServer → β), (∀ handle_packet,
        env.handle_packet = some handle_packet →
          ∀ srv usr pkt, obs (handle_packet srv usr pkt) = obs srv) → obs t = obs s)
      (hout : ∀ e ∈ out, e.Owner) : Received env s i out t

/-- A callback on a consistent registry that runs to its end ends in one of these ways. -/
theorem received {env : Env Pkt} (hf : env.Finds) {s t : GgServer} {i : Input}
    {out : List (Ev Pkt)} (hi : Inv s) (h : Step env s i out t) : Received env s i out t := by
  have hkey : ∀ {remote usr}, env.user_find s.user_list remote = some usr →
      usr ∈ s.user_list ∧ key usr.addr = key remote := by
    intro remote usr hfind
    obtain ⟨hmem, hcmp⟩ := hf.found _ _ _ hfind
    exact ⟨hmem, (addrcmp_eq_zero_iff _ _).1 hcmp⟩
  cases ended h with
  | error hr => exact .error hr
  | @added remote buf hr hfind usr _ ev hadd =>
    -- without memory the callback does not end
    by_cases ha : i.net.Allocates
    · obtain ⟨hcalloc, hmalloc⟩ := ha
      obtain ⟨mem, hmem⟩ := Option.isSome_iff_exists.1 hmalloc
      rw [user_add_linked env hcalloc hmem] at hadd
      cases hadd
      refine .added hr (fun hmem => ?_) hcalloc hmem
      rw [GgServer.keys_eq, List.mem_map] at hmem
      obtain ⟨v, hv, hkey⟩ := hmem
      exact hf.absent _ _ hfind v hv ((addrcmp_eq_zero_iff _ _).2 hkey)
    · rw [user_add_failed env ha hi.fresh] at hadd
      cases hadd
  | removed hr hfind hlen hdel =>
    obtain ⟨l₁, l₂, hl, hdel'⟩ := user_del_linked Pkt hi (hkey hfind).1 i.net
    cases hdel'.symm.trans hdel
    exact .removed hr hlen hl (hkey hfind).2
  | unhandled hr hfind hlen hh =>
    refine .handed hr hlen ((hkey hfind).2 ▸ key_mem_keys (hkey hfind).1) (fun _ _ => rfl) ?_
    intro e he
    rw [List.mem_singleton.1 he]
    trivial
  | @handed remote buf hr usr hfind hlen handle_packet hh _ ev hloop =>
    refine .handed hr hlen ((hkey hfind).2 ▸ key_mem_keys (hkey hfind).1) ?_ ?_
    · intro β obs hobs
      have hkeep := pktLoop_keeps env obs (hobs _ hh) usr.ptr (i.fuel + 1) s buf
        (env.ggpkt_receive_header buf)
      rwa [hloop] at hkeep
    · intro e he
      have howner := pktLoop_owner env handle_packet usr.ptr (i.fuel + 1) s buf
        (env.ggpkt_receive_header buf)
      rw [hloop] at howner
      rcases List.mem_append.1 he with he | he
      · exact howner e he
      · rw [List.mem_singleton.1 he]
        trivial

/-- The outcomes of a callback for the registry: a receive error, a sender added, a sender
removed, or nothing. -/
theorem step_cases {env : Env Pkt} (hf : env.Finds) (hk : env.KeepsRegistry) {s t : GgServer}
    {i : Input} {out : List (Ev Pkt)} (hi : Inv s) (h : Step env s i out t) :
    (i.recvfrom = none ∧ t = s) ∨
    ∃ remote buf, i.recvfrom = some (remote, buf) ∧
      ((key remote ∉ s.keys ∧ ∃ usr : GgUser, usr.ptr = s.ptrs ∧ key usr.addr = key remote ∧
          t.entries = (usr.ptr, usr.addr) :: s.entries ∧
          t.user_count = int32 (s.user_count + 1) ∧ t.ptrs = s.ptrs + 1) ∨
        (env.ggpkt_receive_header buf = 0 ∧ ∃ l₁ e l₂, s.entries = l₁ ++ e :: l₂ ∧
          key e.2 = key remote ∧ t.entries = l₁ ++ l₂ ∧
          t.user_count = int32 (s.user_count - 1) ∧ t.ptrs = s.ptrs) ∨
        (key remote ∈ s.keys ∧ env.ggpkt_receive_header buf ≠ 0 ∧ t.entries = s.entries ∧
          t.user_count = s.user_count ∧ t.ptrs = s.ptrs)) := by
  cases received hf hi h with
  | error hr => exact .inl ⟨hr, rfl⟩
  | @added remote buf hr hnew _ mem _ =>
    refine .inr ⟨remote, buf, hr, .inl ⟨hnew, addedUser env s remote mem, rfl, ?_, rfl, rfl, rfl⟩⟩
    exact key_addrcpy ⟨0, 0, 0, 0⟩ remote
  | @removed remote buf hr hlen usr l₁ l₂ hl hkey =>
    refine .inr ⟨remote, buf, hr, .inr (.inl ⟨hlen, l₁.map fun u => (u.ptr, u.addr),
      (usr.ptr, usr.addr), l₂.map fun u => (u.ptr, u.addr), ?_, hkey, ?_, rfl, rfl⟩)⟩
    · rw [GgServer.entries, hl, List.map_append, List.map_cons]
    · rw [GgServer.entries, List.map_append]
  | @handed remote buf _ _ hr hlen hold hkeep _ =>
    refine .inr ⟨remote, buf, hr, .inr (.inr ⟨hold, hlen, ?_, ?_, ?_⟩)⟩
    · exact hkeep GgServer.entries fun _ hh srv usr pkt => (hk _ hh srv usr pkt).1
    · exact hkeep GgServer.user_count fun _ hh srv usr pkt => (hk _ hh srv usr pkt).2.1
    · exact hkeep GgServer.ptrs fun _ hh srv usr pkt => (hk _ hh srv usr pkt).2.2

theorem step_inv {env : Env Pkt} (hf : env.Finds) (hk : env.KeepsRegistry) {s t : GgServer}
    {i : Input} {out : List (Ev Pkt)} (hi : Inv s) (h : Step env s i out t) : Inv t := by
  rcases step_cases hf hk hi h with ⟨-, rfl⟩ | ⟨remote, buf, -,
    ⟨hnew, usr, hptr, hkey, he, hc, hp⟩ | ⟨-, l₁, e, l₂, hs, -, he, hc, hp⟩ | ⟨-, -, he, hc, hp⟩⟩
  · exact hi
  · refine ⟨?_, ?_, ?_, ?_⟩
    · rw [hc, he, hi.count, int32_add_int32, List.length_cons]
      push_cast
      rfl
    · intro e' he'
      rw [he, List.mem_cons] at he'
      rw [hp]
      rcases he' with rfl | he'
      · exact hptr ▸ Nat.lt_succ_self _
      · exact Nat.lt_succ_of_lt (hi.fresh e' he')
    · rw [he, List.map_cons, List.nodup_cons]
      refine ⟨fun hmem => ?_, hi.ptrs⟩
      obtain ⟨e', he', heq⟩ := List.mem_map.1 hmem
      have := hi.fresh e' he'
      omega
    · rw [GgServer.keys, he, List.map_cons, List.nodup_cons]
      exact ⟨hkey ▸ hnew, hi.keys⟩
  · exact hi.removed hs he hc hp
  · exact hi.congr he hc hp

/-! ### Registration of one address -/

/-- A user at this address is linked. -/
def Registered (srv : GgServer) (a : SockaddrIn) : Prop :=
  ∃ usr ∈ srv.user_list, addrcmp usr.addr a = 0

theorem registered_iff (srv : GgServer) (a : SockaddrIn) : Registered srv a ↔ key a ∈ srv.keys := by
  rw [GgServer.keys_eq, List.mem_map, Registered]
  simp only [addrcmp_eq_zero_iff]

instance (srv : GgServer) (a : SockaddrIn) : Decidable (Registered srv a) :=
  decidable_of_iff _ (registered_iff srv a).symm

/-- The lengths of the datagrams that come from an address. -/
def ownDatagrams (env : Env Pkt) (a : SockaddrIn) (i : Input) : List ℤ :=
  match i.recvfrom with
  | none => []
  | some (remote, buf) => if addrcmp remote a = 0 then [env.ggpkt_receive_header buf] else []

/-- What a datagram of length `len` does to its sender: it is registered if it was not, and
removed by an empty one. -/
def register (registered : Bool) (len : ℤ) : Bool :=
  if registered then decide (len ≠ 0) else true

/-- A callback moves an address exactly by its own datagrams. -/
theorem step_registered {env : Env Pkt} (hf : env.Finds) (hk : env.KeepsRegistry)
    {s t : GgServer} {i : Input} {out : List (Ev Pkt)} (hi : Inv s) (h : Step env s i out t)
    (a : SockaddrIn) :
    decide (Registered t a) =
      (ownDatagrams env a i).foldl register (decide (Registered s a)) := by
  simp only [registered_iff, ownDatagrams]
  rcases step_cases hf hk hi h with ⟨hr, rfl⟩ | ⟨remote, buf, hr,
    ⟨hnew, usr, -, hkey, he, -⟩ | ⟨hlen, l₁, e, l₂, hs, hkey, he, -⟩ | ⟨hold, hlen, he, -⟩⟩
  · rw [hr, List.foldl_nil]
  · simp only [hr, addrcmp_eq_zero_iff]
    have hkeys : t.keys = key remote :: s.keys := by
      rw [GgServer.keys, he, List.map_cons, hkey]
      rfl
    rw [hkeys]
    by_cases hra : key remote = key a
    · rw [if_pos hra, ← hra]
      simp [register, hnew]
    · rw [if_neg hra, List.foldl_nil]
      simp [Ne.symm hra]
  · simp only [hr, addrcmp_eq_zero_iff]
    have hkeys : s.keys = l₁.map (fun e => key e.2) ++ key remote :: l₂.map fun e => key e.2 := by
      rw [GgServer.keys, hs, List.map_append, List.map_cons, hkey]
    have hkeys' : t.keys = l₁.map (fun e => key e.2) ++ l₂.map fun e => key e.2 := by
      rw [GgServer.keys, he, List.map_append]
    have hnot : key remote ∉ t.keys := by
      have hnd := hi.keys
      rw [hkeys, List.nodup_middle, List.nodup_cons] at hnd
      rw [hkeys']
      exact hnd.1
    by_cases hra : key remote = key a
    · rw [if_pos hra, ← hra, decide_eq_false hnot]
      simp [register, hlen, hkeys]
    · rw [if_neg hra, List.foldl_nil, hkeys, hkeys']
      simp [Ne.symm hra]
  · simp only [hr, addrcmp_eq_zero_iff]
    have hkeys : t.keys = s.keys := by rw [GgServer.keys, he]; rfl
    rw [hkeys]
    by_cases hra : key remote = key a
    · rw [if_pos hra, ← hra]
      simp [register, hold, hlen]
    · rw [if_neg hra, List.foldl_nil]

/-! ### Runs -/

/-- No callback on a consistent registry crashes. -/
theorem step_total {env : Env Pkt} (hf : env.Finds) {s : GgServer} {i : Input} (hi : Inv s)
    (ha : i.net.Allocates) : ∃ out t, Step env s i out t := by
  unfold Step cb_srv_receive
  rcases i.recvfrom with _ | ⟨remote, buf⟩
  · exact ⟨_, _, rfl⟩
  rcases hfind : env.user_find s.user_list remote with _ | usr
  · obtain ⟨mem, hmem⟩ := Option.isSome_iff_exists.1 ha.2
    simp only [hfind, user_add_linked env ha.1 hmem]
    exact ⟨_, _, rfl⟩
  · simp only [hfind]
    by_cases hlen : env.ggpkt_receive_header buf = 0
    · obtain ⟨l₁, l₂, -, hdel⟩ := user_del_linked Pkt hi (hf.found _ _ _ hfind).1 i.net
      simp only [if_pos hlen, hdel]
      exact ⟨_, _, rfl⟩
    · rw [if_neg hlen]
      rcases env.handle_packet with _ | handle_packet
      · exact ⟨_, _, rfl⟩
      · exact ⟨_, _, rfl⟩

/-- The callbacks whose allocations succeed. -/
def AllocStep (env : Env Pkt) (s : GgServer) (i : Input) (out : List (Ev Pkt)) (t : GgServer) :
    Prop :=
  Step env s i out t ∧ i.net.Allocates

theorem run_inv {env : Env Pkt} (hf : env.Finds) (hk : env.KeepsRegistry) {s t : GgServer}
    {is : List Input} {es : List (Ev Pkt)} (h : Run (AllocStep env) s is es t) (hi : Inv s) :
    Inv t :=
  h.invariant Inv (fun _ _ _ _ hi hs => step_inv hf hk hi hs.1) hi

/-- Any sequence of datagrams can be received. -/
theorem run_total {env : Env Pkt} (hf : env.Finds) (hk : env.KeepsRegistry) {s : GgServer}
    {is : List Input} (hi : Inv s) (ha : ∀ i ∈ is, i.net.Allocates) :
    ∃ es t, Run (AllocStep env) s is es t := by
  induction is generalizing s with
  | nil => exact ⟨[], s, .nil⟩
  | cons i is ih =>
    have hai := ha i List.mem_cons_self
    obtain ⟨out, u, hstep⟩ := step_total hf hi hai
    obtain ⟨es, t, hrun⟩ := ih (step_inv hf hk hi hstep)
      fun j hj => ha j (List.mem_cons_of_mem _ hj)
    exact ⟨out ++ es, t, .cons ⟨hstep, hai⟩ hrun⟩

/-- **Registry consistency.**  After every run the counter is the number of users as an `int`,
which is that number itself up to `INT_MAX`; no two users have the same address; and an address
is registered exactly if its own datagrams made it so. -/
theorem registry_consistent {env : Env Pkt} (hf : env.Finds) (hk : env.KeepsRegistry)
    {t : GgServer} {is : List Input} {es : List (Ev Pkt)} (h : Run (Step env) start is es t)
    (ha : ∀ i ∈ is, i.net.Allocates) :
    t.user_count = int32 t.user_list.length ∧
    (t.user_count = t.user_list.length ↔ (t.user_list.length : ℤ) ≤ INT_MAX) ∧
    t.user_list.Pairwise (fun u v => addrcmp u.addr v.addr ≠ 0) ∧
    ∀ a, Registered t a ↔ (is.flatMap (ownDatagrams env a)).foldl register false = true := by
  have hrun : Run (AllocStep env) start is es t :=
    h.restrict_inputs (fun i : Input => i.net.Allocates) ha
  have hi := run_inv hf hk hrun inv_start
  have hcount : t.user_count = int32 t.user_list.length := by
    rw [hi.count, GgServer.entries, List.length_map]
  refine ⟨hcount, ⟨fun h => ?_, fun h => ?_⟩, ?_, fun a => ?_⟩
  · rw [← h, hcount]
    exact int32_le _
  · rw [hcount]
    exact int32_of_mem (by omega) h
  · have hnd := hi.keys
    rw [GgServer.keys_eq, List.Nodup, List.pairwise_map] at hnd
    exact hnd.imp fun huv hcmp => huv ((addrcmp_eq_zero_iff _ _).1 hcmp)
  · have hobs := hrun.project Inv (fun s => decide (Registered s a)) (ownDatagrams env a) register
      (fun _ _ _ _ hs hstep => ⟨step_inv hf hk hs hstep.1,
        step_registered hf hk hs hstep.1 a⟩) inv_start
    have hstart : decide (Registered start a) = false := by
      simp [Registered, start]
    rw [hstart] at hobs
    rw [← hobs, decide_eq_true_eq]

/-! ### The counter and its type -/

/-- A server over a `user_find` that walks the list, with no owner. -/
def listEnv : Env Unit where
  PACKET_SNDBUF_MAX := 4096
  ggpkt_receive_header := fun buf => buf.length
  user_find := fun l remote => l.find? fun usr => addrcmp usr.addr remote = 0
  pkt_decode := fun _ _ => none
  handle_packet := none

theorem listEnv_finds : listEnv.Finds where
  found := by
    intro l remote usr h
    exact ⟨List.mem_of_find?_eq_some h, by simpa using List.find?_some h⟩
  absent := by
    intro l remote h usr husr
    simpa using List.find?_eq_none.1 h usr husr

theorem listEnv_keeps : listEnv.KeepsRegistry := by
  intro handle_packet h
  cases h

/-- A datagram from the IP address number `n`. -/
def datagram (n : ℕ) (buf : List UInt8) : Input where
  recvfrom := some (⟨2, 4430, UInt32.ofNat n, 0⟩, buf)
  net := ⟨true, some fun _ => 0, fun _ _ => 0, fun _ _ _ => 0⟩
  fuel := 0

/-- Two probes register and the first one leaves. -/
theorem registry_consistent_two :
    ∃ es t, Run (Step listEnv) start [datagram 1 [1], datagram 2 [1], datagram 1 []] es t ∧
      t.user_count = int32 t.user_list.length ∧
      ¬ Registered t ⟨2, 4430, 1, 7⟩ ∧ Registered t ⟨2, 4430, 2, 7⟩ := by
  have ha : ∀ i ∈ [datagram 1 [1], datagram 2 [1], datagram 1 []], i.net.Allocates := by
    simp [datagram, Net.Allocates]
  obtain ⟨es, t, hrun⟩ := run_total listEnv_finds listEnv_keeps inv_start ha
  have hstep := hrun.mono fun _ _ _ _ hs => hs.1
  obtain ⟨hcount, -, -, hreg⟩ := registry_consistent listEnv_finds listEnv_keeps hstep ha
  refine ⟨es, t, hstep, hcount, ?_, ?_⟩
  · rw [hreg]
    decide
  · rw [hreg]
    decide

/-- One more probe than before. -/
theorem exists_run_succ {n : ℕ} (hn : n < 2 ^ 32) {s : GgServer} {is : List Input}
    {es : List (Ev Unit)} (h : Run (AllocStep listEnv) start is es s)
    (hlt : ∀ e ∈ s.entries, e.2.sin_addr.toNat < n) :
    ∃ is' es' t, Run (AllocStep listEnv) start is' es' t ∧
      t.entries.length = s.entries.length + 1 ∧ ∀ e ∈ t.entries, e.2.sin_addr.toNat < n + 1 := by
  have hi := run_inv listEnv_finds listEnv_keeps h inv_start
  have ha : (datagram n [1]).net.Allocates := ⟨rfl, rfl⟩
  have hn' : (UInt32.ofNat n).toNat = n := UInt32.toNat_ofNat_of_lt' hn
  -- the addresses are taken in order
  have hnew : key ⟨2, 4430, UInt32.ofNat n, 0⟩ ∉ s.keys := by
    intro hmem
    obtain ⟨e, he, hkey⟩ := List.mem_map.1 hmem
    have hlt' := hlt e he
    rw [show e.2.sin_addr = UInt32.ofNat n from congrArg Prod.fst hkey, hn'] at hlt'
    exact lt_irrefl _ hlt'
  obtain ⟨out, t, hstep⟩ := step_total listEnv_finds hi ha
  refine ⟨_, _, t, h.snoc ⟨hstep, ha⟩, ?_⟩
  rcases step_cases listEnv_finds listEnv_keeps hi hstep with ⟨hr, -⟩ | ⟨remote, buf, hr, hcase⟩
  · cases hr
  · cases hr
    rcases hcase with ⟨-, usr, -, hkey, he, -⟩ | ⟨hlen, -⟩ | ⟨hold, -⟩
    · refine ⟨by rw [he, List.length_cons], fun e hmem => ?_⟩
      rw [he, List.mem_cons] at hmem
      rcases hmem with rfl | hmem
      · rw [show usr.addr.sin_addr = UInt32.ofNat n from congrArg Prod.fst hkey, hn']
        exact Nat.lt_succ_self n
      · exact Nat.lt_succ_of_lt (hlt e hmem)
    · cases hlen
    · exact absurd hold hnew

/-- As many probes as there are IP addresses may connect. -/
theorem exists_run (n : ℕ) (hn : n ≤ 2 ^ 32) :
    ∃ is es t, Run (AllocStep listEnv) start is es t ∧ t.entries.length = n ∧
      ∀ e ∈ t.entries, e.2.sin_addr.toNat < n := by
  induction n with
  | zero => exact ⟨[], [], start, .nil, rfl, by simp [start, GgServer.entries]⟩
  | succ n ih =>
    obtain ⟨is, es, s, hrun, hlen, hlt⟩ := ih (by omega)
    obtain ⟨is', es', t, hrun', hlen', hlt'⟩ := exists_run_succ (by omega) hrun hlt
    exact ⟨is', es', t, hrun', by rw [hlen', hlen], hlt'⟩

/-- With `2 ^ 31` probes the counter is negative. -/
theorem user_count_overflow :
    ∃ is es t, Run (Step listEnv) start is es t ∧ (∀ i ∈ is, i.net.Allocates) ∧
      t.user_list.length = 2 ^ 31 ∧ t.user_count = -2 ^ 31 := by
  obtain ⟨is, es, t, hrun, hlen, -⟩ := exists_run (2 ^ 31) (by norm_num)
  have hi := run_inv listEnv_finds listEnv_keeps hrun inv_start
  refine ⟨is, es, t, hrun.mono fun _ _ _ _ hs => hs.1,
    hrun.forall_inputs (fun i : Input => i.net.Allocates) fun _ _ _ _ hs => hs.2, ?_, ?_⟩
  · rwa [GgServer.entries, List.length_map] at hlen
  · rw [hi.count, hlen]
    norm_num [int32]

end Libglouglou
