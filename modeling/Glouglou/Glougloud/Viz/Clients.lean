import Glouglou.Glougloud.Viz.Basic

/-!
# The clients of the viz server

What a callback does to the list of clients (`step_cases`), the invariant of the list (`Inv`),
and the counters kept beside it: `clients_count`, which no accept moves, and
`clients_ids_counter`, which numbers the clients up to wrapping (`clients_ids_iff`).
-/

open CInt Transducer

namespace Viz

/-- The bufferevents of the linked clients. -/
def GlouglouViz.linked (viz : GlouglouViz) : List ℕ := viz.clients.map (·.bev)

/-- The modules stay, and every client is a TCP client with a bufferevent of its own. -/
structure Inv (mods : List Ggdmodviz) (viz : GlouglouViz) : Prop where
  mods_eq : viz.mods = mods
  fresh : ∀ b ∈ viz.linked, b < viz.bevs
  nodup : viz.linked.Nodup
  tcp : ∀ cli ∈ viz.clients, cli.type = .GGDVIZ_CLI_TCP

theorem inv_start (mods : List Ggdmodviz) : Inv mods (start mods) :=
  ⟨rfl, by simp [start, GlouglouViz.linked], by simp [start, GlouglouViz.linked], by simp [start]⟩

/-- Nothing but the closing of bufferevents and of the listener. -/
def Ev.Closes : Ev → Prop
  | .bufferevent_write _ _ => False
  | _ => True

/-! ### Shutdown -/

theorem stopLoop_clients {clis : List GgdvizCli} {viz : GlouglouViz} (h : viz.clients = clis)
    (htcp : ∀ cli ∈ clis, cli.type = .GGDVIZ_CLI_TCP) : (stopLoop viz clis).1.clients = [] := by
  induction clis generalizing viz with
  | nil => exact h
  | cons cli clis ih =>
    simp only [stopLoop, if_pos (htcp cli List.mem_cons_self)]
    refine ih ?_ fun c hc => htcp c (List.mem_cons_of_mem _ hc)
    simp only [servtcp_cli_del, h, List.erase_cons_head]

theorem stopLoop_keeps (viz : GlouglouViz) (clis : List GgdvizCli) :
    (stopLoop viz clis).1.mods = viz.mods ∧ (stopLoop viz clis).1.bevs = viz.bevs ∧
      (stopLoop viz clis).1.clients_ids_counter = viz.clients_ids_counter := by
  induction clis generalizing viz with
  | nil => exact ⟨rfl, rfl, rfl⟩
  | cons cli clis ih =>
    unfold stopLoop
    split_ifs
    · exact ih (servtcp_cli_del viz cli).1
    · exact ih viz

theorem stopLoop_closes (viz : GlouglouViz) (clis : List GgdvizCli) :
    ∀ e ∈ (stopLoop viz clis).2, e.Closes := by
  induction clis generalizing viz with
  | nil => simp [stopLoop]
  | cons cli clis ih =>
    unfold stopLoop
    split_ifs
    · intro e he
      rcases List.mem_append.1 he with he | he
      · rw [servtcp_cli_del, List.mem_singleton] at he
        rw [he]
        trivial
      · exact ih _ e he
    · exact ih viz

/-! ### What one callback does -/

/-- The outcomes of a callback: nothing, a client more, a client less, a notification, none
left. -/
theorem step_cases {mods : List Ggdmodviz} {s t : GlouglouViz} {op : Op} {out : List Ev}
    (hi : Inv mods s) (h : Step s op out t) :
    (op = .accept false ∧ t = s ∧ out = []) ∨
    (op = .accept true ∧ t = (servtcp_cli_add { s with bevs := s.bevs + 1 } s.bevs).1 ∧
      out = [.bufferevent_write s.bevs MSG_WELCOME]) ∨
    (∃ cli ∈ s.clients, op = .event cli.bev ∧ t = (servtcp_cli_del s cli).1 ∧
      out = [.bufferevent_free cli.bev]) ∨
    (∃ reply locals, op = .notification reply locals ∧ t = s ∧
      redis_cb_notification s reply locals = .ok out) ∨
    (op = .stop ∧ t.mods = s.mods ∧ t.bevs = s.bevs ∧ t.clients = [] ∧ ∀ e ∈ out, e.Closes) := by
  unfold Step at h
  cases op with
  | accept ok =>
    cases ok with
    | false =>
      obtain ⟨rfl, rfl⟩ := Prod.mk.inj (Option.some.inj h)
      exact .inl ⟨rfl, rfl, rfl⟩
    | true =>
      obtain ⟨rfl, rfl⟩ := Prod.mk.inj (Option.some.inj h)
      exact .inr (.inl ⟨rfl, rfl, rfl⟩)
  | event bev =>
    simp only [exec, Option.map_eq_some_iff] at h
    obtain ⟨cli, hfind, hdel⟩ := h
    have hbev : cli.bev = bev := by simpa using List.find?_some hfind
    obtain ⟨rfl, rfl⟩ := Prod.mk.inj hdel
    exact .inr (.inr (.inl ⟨cli, List.mem_of_find?_eq_some hfind, by rw [hbev], rfl, rfl⟩))
  | notification reply locals =>
    rcases hr : redis_cb_notification s reply locals with e | ev
    · simp [exec, hr] at h
    · simp only [exec, hr, Option.some.injEq, Prod.mk.injEq] at h
      obtain ⟨rfl, rfl⟩ := h
      exact .inr (.inr (.inr (.inl ⟨reply, locals, rfl, rfl, hr⟩)))
  | stop =>
    simp only [exec, servtcp_stop, Option.some.injEq, Prod.mk.injEq] at h
    obtain ⟨rfl, rfl⟩ := h
    obtain ⟨hmods, hbevs, -⟩ := stopLoop_keeps { s with listener := false } s.clients
    refine .inr (.inr (.inr (.inr ⟨rfl, hmods, hbevs, stopLoop_clients rfl hi.tcp, ?_⟩)))
    intro e he
    rcases List.mem_append.1 he with he | he
    · split_ifs at he
      · rw [List.mem_singleton.1 he]
        trivial
      · cases he
    · exact stopLoop_closes _ _ e he

theorem linked_add (viz : GlouglouViz) (bev : ℕ) :
    (servtcp_cli_add viz bev).1.linked = bev :: viz.linked := rfl

theorem linked_del_subset (viz : GlouglouViz) (cli : GgdvizCli) :
    ∀ b ∈ (servtcp_cli_del viz cli).1.linked, b ∈ viz.linked :=
  fun _ hb => (List.erase_sublist.map _).subset hb

/-- Every callback keeps the invariant, and an accept takes the next bufferevent. -/
theorem step_inv {mods : List Ggdmodviz} {s t : GlouglouViz} {op : Op} {out : List Ev}
    (hi : Inv mods s) (h : Step s op out t) :
    Inv mods t ∧ t.bevs = s.bevs + accepted [op] := by
  rcases step_cases hi h with ⟨rfl, rfl, -⟩ | ⟨rfl, rfl, -⟩ | ⟨cli, hcli, rfl, rfl, -⟩ |
    ⟨reply, locals, rfl, rfl, -⟩ | ⟨rfl, hmods, hbevs, hnil, -⟩
  · exact ⟨hi, rfl⟩
  · refine ⟨⟨hi.mods_eq, ?_, ?_, ?_⟩, rfl⟩
    · intro b hb
      rw [linked_add, List.mem_cons] at hb
      rcases hb with rfl | hb
      · exact Nat.lt_succ_self _
      · exact Nat.lt_succ_of_lt (hi.fresh b hb)
    · rw [linked_add, List.nodup_cons]
      exact ⟨fun hb => lt_irrefl _ (hi.fresh _ hb), hi.nodup⟩
    · intro c hc
      rcases List.mem_cons.1 hc with rfl | hc
      · rfl
      · exact hi.tcp c hc
  · refine ⟨⟨hi.mods_eq, ?_, ?_, ?_⟩, rfl⟩
    · exact fun b hb => hi.fresh b (linked_del_subset s cli b hb)
    · exact hi.nodup.sublist (List.erase_sublist.map _)
    · exact fun c hc => hi.tcp c (List.mem_of_mem_erase hc)
  · exact ⟨hi, rfl⟩
  · have hlinked : t.linked = [] := by rw [GlouglouViz.linked, hnil, List.map_nil]
    refine ⟨⟨hmods.trans hi.mods_eq, ?_, ?_, ?_⟩, hbevs⟩
    · simp [hlinked]
    · simp [hlinked]
    · simp [hnil]

theorem run_inv {mods : List Ggdmodviz} {s t : GlouglouViz} {ops : List Op} {es : List Ev}
    (h : Run Step s ops es t) (hi : Inv mods s) :
    Inv mods t ∧ t.bevs = s.bevs + accepted ops := by
  induction h with
  | nil => exact ⟨hi, rfl⟩
  | snoc _ hstep ih =>
    obtain ⟨hm, hbevs⟩ := ih
    obtain ⟨ht, hbevs'⟩ := step_inv hm hstep
    refine ⟨ht, ?_⟩
    rw [hbevs', hbevs, accepted, accepted, accepted, List.countP_append, Nat.add_assoc]

/-! ### The counter -/

/-- In every state of the run `clients_count` is the number of linked clients, and it is 0
after `_servtcp_stop`. -/
def Counted (s : GlouglouViz) (ops : List Op) : Prop :=
  ∀ pre es t, pre <+: ops → Run Step s pre es t →
    t.clients_count = t.clients.length ∧ (pre.getLast? = some .stop → t.clients_count = 0)

/-- Without clients nothing moves the counter. -/
theorem step_idle {mods : List Ggdmodviz} {s t : GlouglouViz} {op : Op} {out : List Ev}
    (hi : Inv mods s) (h : Step s op out t) (ha : op.accepts = false)
    (hs : s.clients = [] ∧ s.clients_count = 0) : t.clients = [] ∧ t.clients_count = 0 := by
  rcases step_cases hi h with ⟨-, rfl, -⟩ | ⟨rfl, -⟩ | ⟨cli, hcli, -⟩ | ⟨_, _, -, rfl, -⟩ | ⟨rfl, -⟩
  · exact hs
  · cases ha
  · rw [hs.1] at hcli
    cases hcli
  · exact hs
  · simp only [Step, exec, servtcp_stop, hs.1, stopLoop, Option.some.injEq, Prod.mk.injEq] at h
    rw [← h.1]
    exact ⟨rfl, hs.2⟩

/-- A run that accepts no client has none and counts none. -/
theorem run_idle {mods : List Ggdmodviz} {s t : GlouglouViz} {ops : List Op} {es : List Ev}
    (h : Run Step s ops es t) (hi : Inv mods s) (ha : accepted ops = 0)
    (hs : s.clients = [] ∧ s.clients_count = 0) : t.clients = [] ∧ t.clients_count = 0 := by
  induction h with
  | nil => exact hs
  | snoc hr hstep ih =>
    rw [accepted, List.countP_append, Nat.add_eq_zero_iff] at ha
    refine step_idle (run_inv hr hi).1 hstep ?_ (ih ha.1)
    simpa [List.countP_eq_zero] using ha.2

/-- The first client accepted is not counted. -/
theorem not_counted_of_accept {mods : List Ggdmodviz} {ops : List Op} {es : List Ev}
    {t : GlouglouViz} (h : Run Step (start mods) ops es t) (ha : accepted ops ≠ 0) :
    ¬ Counted (start mods) ops := by
  induction h with
  | nil => exact absurd rfl ha
  | @snoc ops es u op out t hr hstep ih =>
    intro hc
    by_cases hprev : accepted ops = 0
    · -- this is the first accept: it links a client next to a counter of 0
      have hidle := run_idle hr (inv_start mods) hprev ⟨rfl, rfl⟩
      rcases step_cases (run_inv hr (inv_start mods)).1 hstep with ⟨rfl, -⟩ | ⟨rfl, rfl, -⟩ |
        ⟨_, _, rfl, -⟩ | ⟨_, _, rfl, -⟩ | ⟨rfl, -⟩
      all_goals try
        exact ha (by rw [accepted, List.countP_append, Nat.add_eq_zero_iff]; exact ⟨hprev, rfl⟩)
      have hcount := (hc _ _ _ (List.prefix_refl _) (hr.snoc hstep)).1
      simp [servtcp_cli_add, hidle.1, hidle.2] at hcount
    · exact ih hprev fun pre es' v hpre hrun =>
        hc pre es' v (hpre.trans (List.prefix_append _ _)) hrun

/-- **The client counter.**  `clients_count` is the number of clients throughout a run exactly
if the run accepts none. -/
theorem clients_count_iff (mods : List Ggdmodviz) {ops : List Op} {es : List Ev}
    {t : GlouglouViz} (h : Run Step (start mods) ops es t) :
    Counted (start mods) ops ↔ accepted ops = 0 := by
  constructor
  · intro hc
    by_contra ha
    exact not_counted_of_accept h ha hc
  · rintro ha pre es' u ⟨post, rfl⟩ hrun
    rw [accepted, List.countP_append, Nat.add_eq_zero_iff] at ha
    obtain ⟨hnil, hzero⟩ := run_idle hrun (inv_start mods) ha.1 ⟨rfl, rfl⟩
    exact ⟨by rw [hnil, hzero]; rfl, fun _ => hzero⟩

/-- A connection that could not be set up, and the shutdown. -/
theorem clients_count_idle : Counted (start []) [.accept false, .stop] := by
  have hfail : Step (start []) (.accept false) [] (start []) := rfl
  have hstop : Step (start []) .stop [.evconnlistener_free]
      { start [] with listener := false } := rfl
  exact (clients_count_iff [] (Run.cons hfail (Run.single hstop))).2 rfl

/-- One client that comes and goes takes the counter below zero. -/
theorem clients_count_wraps :
    (∃ es t, Run Step (start []) [.accept true, .event 0] es t ∧ t.clients = [] ∧
      t.clients_count = 2 ^ 32 - 1) ∧ ¬ Counted (start []) [.accept true, .event 0] := by
  have hadd : Step (start []) (.accept true) [.bufferevent_write 0 MSG_WELCOME]
      ⟨[], [⟨0, .GGDVIZ_CLI_TCP, 0⟩], 0, 1, true, 1⟩ := rfl
  have hdel : Step ⟨[], [⟨0, .GGDVIZ_CLI_TCP, 0⟩], 0, 1, true, 1⟩ (.event 0)
      [.bufferevent_free 0] ⟨[], [], 2 ^ 32 - 1, 1, true, 1⟩ := rfl
  have hrun := Run.cons hadd (Run.single hdel)
  exact ⟨⟨_, _, hrun, rfl, rfl⟩, not_counted_of_accept hrun (by decide)⟩

/-! ### The identifiers -/

/-- The counter is the number of bufferevents made, and a client has the number of its own, both
as 32-bit integers. -/
structure Numbered (s : GlouglouViz) : Prop where
  counter : s.clients_ids_counter = uint32 s.bevs
  id_eq : ∀ cli ∈ s.clients, cli.id = int32 cli.bev

theorem numbered_start (mods : List Ggdmodviz) : Numbered (start mods) :=
  ⟨rfl, by simp [start]⟩

theorem step_numbered {mods : List Ggdmodviz} {s t : GlouglouViz} {op : Op} {out : List Ev}
    (hi : Inv mods s) (h : Step s op out t) (hs : Numbered s) : Numbered t := by
  rcases step_cases hi h with ⟨-, rfl, -⟩ | ⟨-, rfl, -⟩ | ⟨cli, -, -, rfl, -⟩ |
    ⟨_, _, -, rfl, -⟩ | ⟨rfl, -, hbevs, hnil, -⟩
  · exact hs
  · constructor
    · show uint32 (s.clients_ids_counter + 1) = uint32 ((s.bevs + 1 : ℕ) : ℤ)
      rw [hs.counter, uint32_add_uint32, Nat.cast_succ]
    · intro c hc
      rcases List.mem_cons.1 hc with rfl | hc
      · show int32 s.clients_ids_counter = int32 s.bevs
        rw [hs.counter, int32_uint32]
      · exact hs.id_eq c hc
  · exact ⟨hs.counter, fun c hc => hs.id_eq c (List.mem_of_mem_erase hc)⟩
  · exact hs
  · constructor
    · have hstop : (servtcp_stop s).1 = t := congrArg Prod.fst (Option.some.inj h)
      rw [hbevs, ← hs.counter, ← hstop]
      exact (stopLoop_keeps _ _).2.2
    · simp [hnil]

theorem run_numbered {mods : List Ggdmodviz} {s t : GlouglouViz} {ops : List Op} {es : List Ev}
    (h : Run Step s ops es t) (hi : Inv mods s) (hs : Numbered s) : Numbered t := by
  induction h with
  | nil => exact hs
  | snoc hr hstep ih => exact step_numbered (run_inv hr hi).1 hstep ih

/-- **The identifiers.**  In every state of every run two linked clients have the same `id`
exactly if the numbers of clients accepted before them differ by a multiple of `2 ^ 32`, so no
two have the same in a run that accepts at most `2 ^ 32`. -/
theorem clients_ids_iff (mods : List Ggdmodviz) {ops : List Op} {es : List Ev} {t : GlouglouViz}
    (h : Run Step (start mods) ops es t) :
    (∀ cli ∈ t.clients, ∀ cli' ∈ t.clients,
      cli.id = cli'.id ↔ (cli.bev : ℤ) ≡ cli'.bev [ZMOD 2 ^ 32]) ∧
    (accepted ops ≤ 2 ^ 32 → (t.clients.map (·.id)).Nodup) := by
  obtain ⟨hi, hbevs⟩ := run_inv h (inv_start mods)
  have hn := run_numbered h (inv_start mods) (numbered_start mods)
  have hid : ∀ cli ∈ t.clients, ∀ cli' ∈ t.clients,
      cli.id = cli'.id ↔ (cli.bev : ℤ) ≡ cli'.bev [ZMOD 2 ^ 32] := by
    intro cli hcli cli' hcli'
    rw [hn.id_eq cli hcli, hn.id_eq cli' hcli', int32_eq_int32]
  refine ⟨hid, fun hfew => ?_⟩
  have hlt : ∀ cli ∈ t.clients, (cli.bev : ℤ) < 2 ^ 32 := by
    intro cli hcli
    have hfresh := hi.fresh cli.bev (List.mem_map_of_mem hcli)
    rw [hbevs] at hfresh
    have hle : cli.bev < 2 ^ 32 := by
      apply lt_of_lt_of_le hfresh
      rw [show (start mods).bevs = 0 from rfl, Nat.zero_add]
      exact hfew
    exact_mod_cast hle
  refine List.Nodup.map_on (fun cli hcli cli' hcli' heq => ?_) hi.nodup.of_map
  -- below `2 ^ 32` congruent numbers are equal, and a bufferevent has one client
  have hmod := (hid cli hcli cli' hcli').1 heq
  have hbev : (cli.bev : ℤ) = cli'.bev := by
    have h1 := hlt cli hcli
    have h2 := hlt cli' hcli'
    unfold Int.ModEq at hmod
    omega
  exact List.inj_on_of_nodup_map hi.nodup hcli hcli' (by exact_mod_cast hbev)

/-- Three clients, the second of which leaves. -/
theorem clients_ids_three : ∃ es t, Run Step (start [])
    [.accept true, .accept true, .event 1, .accept true] es t ∧
      (t.clients.map (·.id)).Nodup := by
  have hrun : ∃ es t, Run Step (start [])
      [.accept true, .accept true, .event 1, .accept true] es t :=
    ⟨_, _, Run.cons rfl (Run.cons rfl (Run.cons rfl (Run.single rfl)))⟩
  obtain ⟨es, t, hrun⟩ := hrun
  exact ⟨es, t, hrun, (clients_ids_iff [] hrun).2 (by decide)⟩

/-- A second client is accepted, as number `n`. -/
theorem step_second (count : ℤ) (n : ℕ) :
    Step ⟨[], [⟨0, .GGDVIZ_CLI_TCP, 0⟩], count, uint32 n, true, n⟩ (.accept true)
      [.bufferevent_write n MSG_WELCOME]
      ⟨[], [⟨int32 n, .GGDVIZ_CLI_TCP, n⟩, ⟨0, .GGDVIZ_CLI_TCP, 0⟩], count,
        uint32 (n + 1 : ℕ), true, n + 1⟩ := by
  rw [Nat.cast_succ, ← uint32_add_uint32, ← int32_uint32]
  rfl

/-- A first client stays while `n` others come and go. -/
theorem exists_run_rounds (n : ℕ) : ∃ ops es count, Run Step (start []) ops es
    ⟨[], [⟨0, .GGDVIZ_CLI_TCP, 0⟩], count, uint32 (n + 1 : ℕ), true, n + 1⟩ := by
  induction n with
  | zero => exact ⟨[.accept true], _, 0, Run.single rfl⟩
  | succ n ih =>
    obtain ⟨ops, es, count, hrun⟩ := ih
    have hdel : Step
        ⟨[], [⟨int32 (n + 1 : ℕ), .GGDVIZ_CLI_TCP, n + 1⟩, ⟨0, .GGDVIZ_CLI_TCP, 0⟩], count,
          uint32 (n + 1 + 1 : ℕ), true, n + 1 + 1⟩ (.event (n + 1)) [.bufferevent_free (n + 1)]
        ⟨[], [⟨0, .GGDVIZ_CLI_TCP, 0⟩], uint32 (count - 1), uint32 (n + 1 + 1 : ℕ), true,
          n + 1 + 1⟩ := by
      simp [Step, exec, servtcp_cb_event, servtcp_cli_del]
    exact ⟨_, _, _, (hrun.snoc (step_second count (n + 1))).snoc hdel⟩

/-- The client that comes after `2 ^ 32` others has the `id` of the first. -/
theorem clients_ids_wrap : ∃ ops es t, Run Step (start []) ops es t ∧
    ∃ cli ∈ t.clients, ∃ cli' ∈ t.clients, cli ≠ cli' ∧ cli.id = cli'.id := by
  obtain ⟨ops, es, count, hrun⟩ := exists_run_rounds (2 ^ 32 - 1)
  refine ⟨_, _, _, hrun.snoc (step_second count _), _, List.mem_cons_self, _,
    List.mem_cons_of_mem _ List.mem_cons_self, ?_, ?_⟩
  · intro heq
    exact absurd (congrArg GgdvizCli.bev heq) (by norm_num)
  · norm_num [int32]

end Viz
