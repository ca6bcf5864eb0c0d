import Glouglou.Glougloud.Viz.Delivery

/-!
# The connections of the viz server

A bufferevent belongs to one client.  The protocol of writing to it and freeing it (`Use.next`):
the welcome that is written when it is made opens it, more may be written while it is open, and it
is freed once, after which it is neither written to nor freed.  Every run keeps to it
(`connections`), and so to the listener, which is freed once however often the server is stopped.

`viz_shutdown` also gives up the connection to redis.
-/

open CInt Redis Transducer

namespace Viz

/-- What is done to a bufferevent, once it is set up. -/
inductive Use
  | write
  | free
  deriving DecidableEq

/-- Where a bufferevent is in its life. -/
inductive Life
  | unmade
  | linked
  | freed
  deriving DecidableEq

/-- The protocol: the first write opens, and a free ends. -/
def Use.next : Life → Use → Option Life
  | .unmade, .write => some .linked
  | .linked, .write => some .linked
  | .linked, .free => some .freed
  | _, _ => none

/-- What an event does to a bufferevent. -/
def Ev.uses (bev : ℕ) : Ev → List Use
  | .bufferevent_write b _ => if b = bev then [.write] else []
  | .bufferevent_free b => if b = bev then [.free] else []
  | .evconnlistener_free => []

/-- The event frees the listener. -/
def Ev.unlistens : Ev → Bool
  | .evconnlistener_free => true
  | _ => false

/-- The life of a bufferevent, as the server has it. -/
def GlouglouViz.life (viz : GlouglouViz) (bev : ℕ) : Life :=
  if bev ∈ viz.linked then .linked else if bev < viz.bevs then .freed else .unmade

/-! ### Writes and frees -/

/-- A notification writes to linked clients and does nothing else. -/
theorem notification_writes {viz : GlouglouViz} {reply : Option RedisReply} {locals : Ntf}
    {out : List Ev} (h : redis_cb_notification viz reply locals = .ok out) :
    ∀ e ∈ out, ∃ bev ∈ viz.linked, ∃ data, e = .bufferevent_write bev data := by
  unfold redis_cb_notification at h
  cases reply with
  | none =>
    cases h
    simp
  | some reply =>
    rcases hp : redis_parse_keyspace_notification reply locals with e | p
    · simp [hp] at h
    · simp only [hp] at h
      split_ifs at h
      · cases h
        simp
      · cases h
        intro e he
        obtain ⟨m, -, hm⟩ := List.mem_flatMap.1 he
        split_ifs at hm
        · cases hm
        · obtain ⟨cli, hcli, hn⟩ := List.mem_flatMap.1 hm
          unfold notifyClient at hn
          rcases htype : cli.type with _ | _
          · simp only [htype] at hn
            split_ifs at hn
            · cases hn
            · exact ⟨cli.bev, List.mem_map_of_mem hcli, _, List.mem_singleton.1 hn⟩
          · simp only [htype] at hn
            cases hn

/-- The loop of `_servtcp_stop` frees the bufferevents of its clients, each once. -/
theorem stopLoop_frees {clis : List GgdvizCli} (viz : GlouglouViz)
    (htcp : ∀ cli ∈ clis, cli.type = .GGDVIZ_CLI_TCP) :
    (stopLoop viz clis).2 = clis.map fun cli => Ev.bufferevent_free cli.bev := by
  induction clis generalizing viz with
  | nil => rfl
  | cons cli clis ih =>
    simp only [stopLoop, if_pos (htcp cli List.mem_cons_self)]
    rw [ih _ fun c hc => htcp c (List.mem_cons_of_mem _ hc)]
    rfl

/-- Of distinct bufferevents one is freed once, or not at all. -/
theorem uses_frees {bevs : List ℕ} (hnd : bevs.Nodup) (bev : ℕ) :
    (bevs.map Ev.bufferevent_free).flatMap (Ev.uses bev) = if bev ∈ bevs then [.free] else [] := by
  induction bevs with
  | nil => rfl
  | cons b bevs ih =>
    rw [List.nodup_cons] at hnd
    rw [List.map_cons, List.flatMap_cons, ih hnd.2]
    by_cases hb : b = bev
    · subst hb
      simp [Ev.uses, hnd.1]
    · simp [Ev.uses, hb, Ne.symm hb]

/-- Writing leaves a linked bufferevent linked. -/
theorem foldlM_writes {us : List Use} (h : ∀ u ∈ us, u = .write) :
    us.foldlM Use.next Life.linked = some Life.linked := by
  induction us with
  | nil => rfl
  | cons u us ih =>
    rw [List.foldlM_cons, h u List.mem_cons_self]
    exact ih fun u' hu' => h u' (List.mem_cons_of_mem _ hu')

/-! ### One callback -/

/-- A callback keeps to the protocol. -/
theorem step_life {mods : List Ggdmodviz} {s t : GlouglouViz} {op : Op} {out : List Ev}
    (hi : Inv mods s) (h : Step s op out t) (bev : ℕ) :
    (out.flatMap (Ev.uses bev)).foldlM Use.next (s.life bev) = some (t.life bev) := by
  rcases step_cases hi h with ⟨-, rfl, rfl⟩ | ⟨-, rfl, rfl⟩ | ⟨cli, hcli, -, rfl, rfl⟩ |
    ⟨reply, locals, -, rfl, hn⟩ | ⟨rfl, -, hbevs, hnil, -⟩
  · rfl
  · rw [List.flatMap_singleton]
    by_cases hb : s.bevs = bev
    · -- the bufferevent is made here
      subst hb
      have hnot : s.bevs ∉ s.linked := fun hmem => lt_irrefl _ (hi.fresh _ hmem)
      have hs : s.life s.bevs = .unmade := by
        rw [GlouglouViz.life, if_neg hnot, if_neg (lt_irrefl _)]
      have ht : GlouglouViz.life (servtcp_cli_add { s with bevs := s.bevs + 1 } s.bevs).1 s.bevs =
          .linked := by
        rw [GlouglouViz.life, linked_add, if_pos List.mem_cons_self]
      rw [hs, ht, Ev.uses, if_pos rfl]
      rfl
    · rw [Ev.uses, if_neg hb]
      have ht : GlouglouViz.life (servtcp_cli_add { s with bevs := s.bevs + 1 } s.bevs).1 bev =
          s.life bev := by
        have hlt : bev < s.bevs + 1 ↔ bev < s.bevs := by omega
        unfold GlouglouViz.life
        rw [linked_add]
        simp only [servtcp_cli_add, List.mem_cons, Ne.symm hb, false_or, hlt]
        rfl
      rw [ht]
      rfl
  · rw [List.flatMap_singleton]
    have hnd := hi.nodup
    rw [GlouglouViz.linked, ((List.perm_cons_erase hcli).map _).nodup_iff, List.map_cons,
      List.nodup_cons] at hnd
    have hmem : cli.bev ∈ s.linked := List.mem_map_of_mem hcli
    have hgone : cli.bev ∉ (servtcp_cli_del s cli).1.linked := hnd.1
    by_cases hb : cli.bev = bev
    · subst hb
      have hs : s.life cli.bev = .linked := if_pos hmem
      have ht : GlouglouViz.life (servtcp_cli_del s cli).1 cli.bev = .freed := by
        rw [GlouglouViz.life, if_neg hgone]
        exact if_pos (hi.fresh _ hmem)
      rw [hs, ht, Ev.uses, if_pos rfl]
      rfl
    · rw [Ev.uses, if_neg hb]
      have hiff : bev ∈ (servtcp_cli_del s cli).1.linked ↔ bev ∈ s.linked := by
        have hperm : bev ∈ s.linked ↔ bev ∈ cli.bev :: (servtcp_cli_del s cli).1.linked :=
          ((List.perm_cons_erase hcli).map _).mem_iff
        rw [hperm, List.mem_cons, or_iff_right (Ne.symm hb)]
      have ht : GlouglouViz.life (servtcp_cli_del s cli).1 bev = s.life bev := by
        simp only [GlouglouViz.life, hiff]
        rfl
      rw [ht]
      rfl
  · have hw := notification_writes hn
    by_cases hb : bev ∈ t.linked
    · rw [GlouglouViz.life, if_pos hb]
      refine foldlM_writes fun u hu => ?_
      obtain ⟨e, he, hue⟩ := List.mem_flatMap.1 hu
      obtain ⟨b, -, data, rfl⟩ := hw e he
      simp only [Ev.uses] at hue
      split_ifs at hue
      · exact List.mem_singleton.1 hue
      · cases hue
    · have hnone : out.flatMap (Ev.uses bev) = [] := by
        refine List.flatMap_eq_nil_iff.2 fun e he => ?_
        obtain ⟨b, hmem, data, rfl⟩ := hw e he
        exact if_neg fun hbb : b = bev => hb (hbb ▸ hmem)
      rw [hnone]
      rfl
  · simp only [Step, exec, servtcp_stop, Option.some.injEq, Prod.mk.injEq] at h
    obtain ⟨-, rfl⟩ := h
    have hlisten : ((if s.listener then [Ev.evconnlistener_free] else []) : List Ev).flatMap
        (Ev.uses bev) = [] := by
      split_ifs <;> rfl
    have hlinked : t.linked = [] := by rw [GlouglouViz.linked, hnil, List.map_nil]
    have huses := uses_frees hi.nodup bev
    rw [GlouglouViz.linked, List.map_map] at huses
    rw [List.flatMap_append, hlisten, List.nil_append, stopLoop_frees _ hi.tcp]
    rw [show (s.clients.map fun cli => Ev.bufferevent_free cli.bev) =
      s.clients.map (Ev.bufferevent_free ∘ (·.bev)) from rfl, huses, GlouglouViz.life,
      GlouglouViz.life, hlinked, hbevs, if_neg (List.not_mem_nil (a := bev))]
    by_cases hb : bev ∈ s.linked
    · rw [if_pos hb, if_pos (hi.fresh _ hb)]
      rw [if_pos (show bev ∈ s.clients.map (·.bev) from hb)]
      rfl
    · rw [if_neg hb]
      rw [if_neg (show ¬ bev ∈ s.clients.map (·.bev) from hb)]
      rfl

/-! ### The listener -/

/-- How many listeners are open. -/
def GlouglouViz.listening (viz : GlouglouViz) : ℕ := if viz.listener then 1 else 0

/-- A callback frees the listener if it closes it. -/
theorem step_listener {mods : List Ggdmodviz} {s t : GlouglouViz} {op : Op} {out : List Ev}
    (hi : Inv mods s) (h : Step s op out t) :
    out.countP Ev.unlistens + t.listening = s.listening := by
  rcases step_cases hi h with ⟨-, rfl, rfl⟩ | ⟨-, rfl, rfl⟩ | ⟨cli, -, -, rfl, rfl⟩ |
    ⟨reply, locals, -, rfl, hn⟩ | ⟨rfl, -⟩
  · exact Nat.zero_add _
  · exact Nat.zero_add _
  · exact Nat.zero_add _
  · rw [List.countP_eq_zero.2 fun e he => ?_, Nat.zero_add]
    obtain ⟨b, -, data, rfl⟩ := notification_writes hn e he
    exact Bool.false_ne_true
  · simp only [Step, exec, servtcp_stop, Option.some.injEq, Prod.mk.injEq] at h
    obtain ⟨rfl, rfl⟩ := h
    have hclosed : ∀ (clis : List GgdvizCli) (viz : GlouglouViz),
        (stopLoop viz clis).1.listener = viz.listener := by
      intro clis
      induction clis with
      | nil => exact fun _ => rfl
      | cons cli clis ih =>
        intro viz
        unfold stopLoop
        split_ifs
        · exact ih (servtcp_cli_del viz cli).1
        · exact ih viz
    have hfrees :
        (s.clients.map fun cli => Ev.bufferevent_free cli.bev).countP Ev.unlistens = 0 := by
      rw [List.countP_eq_zero]
      intro e he
      obtain ⟨cli, -, rfl⟩ := List.mem_map.1 he
      exact Bool.false_ne_true
    rw [List.countP_append, stopLoop_frees _ hi.tcp, hfrees, GlouglouViz.listening, hclosed,
      GlouglouViz.listening]
    cases s.listener <;> rfl

theorem run_listener {mods : List Ggdmodviz} {s t : GlouglouViz} {ops : List Op} {es : List Ev}
    (h : Run Step s ops es t) (hi : Inv mods s) :
    es.countP Ev.unlistens + t.listening = s.listening := by
  induction h with
  | nil => exact Nat.zero_add _
  | snoc hr hstep ih =>
    have hlast := step_listener (run_inv hr hi).1 hstep
    rw [List.countP_append]
    omega

theorem run_life {mods : List Ggdmodviz} {s t : GlouglouViz} {ops : List Op} {es : List Ev}
    (h : Run Step s ops es t) (hi : Inv mods s) (bev : ℕ) :
    (es.flatMap (Ev.uses bev)).foldlM Use.next (s.life bev) = some (t.life bev) :=
  Run.typestate (Inv mods) (fun viz => viz.life bev) (Ev.uses bev) Use.next
    (fun _ _ _ _ hu hs => ⟨(step_inv hu hs).1, step_life hu hs bev⟩) h hi

/-! ### Shutdown -/

/-- The server with its connection to redis, if it has one. -/
structure Process where
  viz : GlouglouViz
  rc : Bool

/-- The calls of libevent, and those of hiredis. -/
inductive ProcessEv
  | viz (e : Ev)
  | redisAsyncDisconnect
  | redisAsyncFree

/-- `redis_disconnect` -/
def redis_disconnect : List ProcessEv := [.redisAsyncDisconnect, .redisAsyncFree]

/-- `_redis_disconnect` of `viz.c` -/
def viz_redis_disconnect (p : Process) : Process × List ProcessEv :=
  ({ p with rc := false }, if p.rc then redis_disconnect else [])

/-- `viz_shutdown` -/
def viz_shutdown (p : Process) : Process × List ProcessEv :=
  let r := viz_redis_disconnect p
  let r' := servtcp_stop r.1.viz
  ({ r.1 with viz := r'.1 }, r.2 ++ r'.2.map .viz)

/-- A server without clients and listener has nothing to stop. -/
theorem servtcp_stop_idle {viz : GlouglouViz} (hc : viz.clients = []) (hl : viz.listener = false) :
    servtcp_stop viz = (viz, []) := by
  obtain ⟨mods, clients, count, ids, listener, bevs⟩ := viz
  obtain rfl : clients = [] := hc
  obtain rfl : listener = false := hl
  rfl

/-- **The connections.**  In every run each bufferevent is written to when it is made and while it
is linked, and freed at most once, after which it is neither written to nor freed; the listener is
freed at most once.  `viz_shutdown` after any run frees every bufferevent that is left and the
listener, and a second one does nothing. -/
theorem connections (mods : List Ggdmodviz) {ops : List Op} {es : List Ev} {t : GlouglouViz}
    (h : Run Step (start mods) ops es t) :
    (∀ bev, (es.flatMap (Ev.uses bev)).foldlM Use.next .unmade = some (t.life bev)) ∧
    es.countP Ev.unlistens + t.listening = 1 ∧
    ∀ rc, ∃ p out, viz_shutdown ⟨t, rc⟩ = (p, (if rc then redis_disconnect else []) ++
        out.map .viz) ∧
      (∀ bev, ((es ++ out).flatMap (Ev.uses bev)).foldlM Use.next .unmade =
        some (if bev < accepted ops then .freed else .unmade)) ∧
      (es ++ out).countP Ev.unlistens = 1 ∧ viz_shutdown p = (p, []) := by
  have hi := inv_start mods
  have hlife : ∀ bev, (start mods).life bev = .unmade := fun _ => rfl
  refine ⟨fun bev => hlife bev ▸ run_life h hi bev, run_listener h hi, fun rc => ?_⟩
  obtain ⟨ht, hbevs⟩ := run_inv h hi
  have hstop : Step t .stop (servtcp_stop t).2 (servtcp_stop t).1 := rfl
  have hrun := h.snoc hstop
  have hclients : (servtcp_stop t).1.clients = [] := stopLoop_clients rfl ht.tcp
  have hbevs' : (servtcp_stop t).1.bevs = accepted ops := by
    rw [(step_inv ht hstop).2, hbevs]
    exact (Nat.add_zero _).trans (Nat.zero_add _)
  -- the stopped server neither listens nor has clients
  have hlistener : (servtcp_stop t).1.listening = 0 := by
    have hlast := step_listener ht hstop
    have hcount : t.listening ≤ (servtcp_stop t).2.countP Ev.unlistens := by
      rw [servtcp_stop, List.countP_append, GlouglouViz.listening]
      cases t.listener
      · exact Nat.zero_le _
      · exact Nat.le_add_right _ _
    omega
  have hfalse : (servtcp_stop t).1.listener = false := by
    unfold GlouglouViz.listening at hlistener
    split_ifs at hlistener with hl
    exact Bool.eq_false_iff.2 hl
  refine ⟨⟨(servtcp_stop t).1, false⟩, (servtcp_stop t).2, rfl, fun bev => ?_, ?_, ?_⟩
  · have hlast := run_life hrun hi bev
    rw [hlife] at hlast
    rw [hlast, GlouglouViz.life, GlouglouViz.linked, hclients, hbevs']
    rfl
  · have hcount := run_listener hrun hi
    rw [hlistener] at hcount
    exact hcount
  · rw [viz_shutdown, viz_redis_disconnect]
    simp only [Bool.false_eq_true, if_false, servtcp_stop_idle hclients hfalse]
    rfl

/-- A client comes and one is still there when the server is shut down. -/
theorem connections_two :
    ∃ es t, Run Step (start []) [.accept true, .accept true, .event 0] es t ∧
      (es.flatMap (Ev.uses 0)).foldlM Use.next .unmade = some .freed ∧
      ∃ p out, viz_shutdown ⟨t, true⟩ = (p, redis_disconnect ++ out.map .viz) ∧
        ((es ++ out).flatMap (Ev.uses 1)).foldlM Use.next .unmade = some .freed := by
  have hrun : ∃ es t, Run Step (start []) [.accept true, .accept true, .event 0] es t ∧
      t.life 0 = .freed := ⟨_, _, Run.cons rfl (Run.cons rfl (Run.single rfl)), rfl⟩
  obtain ⟨es, t, hrun, hlife⟩ := hrun
  obtain ⟨huses, -, hstop⟩ := connections [] hrun
  obtain ⟨p, out, hp, hout, -⟩ := hstop true
  exact ⟨es, t, hrun, hlife ▸ huses 0, p, out, hp, hout 1⟩

end Viz
