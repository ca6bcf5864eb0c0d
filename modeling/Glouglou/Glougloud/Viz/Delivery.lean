import Glouglou.Glougloud.Viz.Clients

/-!
# What the viz server writes to a client

A client is sent the welcome when it is accepted and then, until it is removed, the texts of
every notification.  Nothing else is written to it, before, between or after, whatever happens
to the other clients: the window of the client is open (`Live`) while its bufferevent is
linked, and closed for good (`Gone`) afterwards.
-/

open CString Redis Transducer

namespace Viz

/-- The part of `written` that one event adds. -/
def Ev.writtenTo (bev : ℕ) : Ev → List UInt8
  | .bufferevent_write b data => if b = bev then data else []
  | _ => []

theorem written_eq (bev : ℕ) (es : List Ev) : written bev es = es.flatMap (Ev.writtenTo bev) := by
  unfold written
  congr 1

theorem written_append (bev : ℕ) (es es' : List Ev) :
    written bev (es ++ es') = written bev es ++ written bev es' :=
  List.flatMap_append

/-- Nothing is written by closing. -/
theorem written_of_closes {bev : ℕ} {es : List Ev} (h : ∀ e ∈ es, e.Closes) :
    written bev es = [] := by
  rw [written_eq, List.flatMap_eq_nil_iff]
  intro e he
  cases e with
  | bufferevent_write b data => exact (h _ he).elim
  | _ => rfl

/-! ### One notification -/

/-- A module's contribution to one client: its text, if the client is the one observed. -/
theorem written_notifyClient {cli : GgdvizCli} (h : cli.type = .GGDVIZ_CLI_TCP) (bev : ℕ)
    (ntf : Ntf) (m : Ggdmodviz) :
    written bev (notifyClient ntf m cli) =
      if cli.bev = bev then ((m.render ntf).text).getD [] else [] := by
  unfold notifyClient
  rw [h]
  unfold Rendered.text
  by_cases hlen : (m.render ntf).len ≤ 0
  · simp [hlen, written]
  · simp [hlen, written]

/-- A module writes its text once to each linked client and nothing to anyone else. -/
theorem written_clients {clis : List GgdvizCli} (htcp : ∀ cli ∈ clis, cli.type = .GGDVIZ_CLI_TCP)
    (hnd : (clis.map (·.bev)).Nodup) (bev : ℕ) (ntf : Ntf) (m : Ggdmodviz) :
    written bev (clis.flatMap (notifyClient ntf m)) =
      if bev ∈ clis.map (·.bev) then ((m.render ntf).text).getD [] else [] := by
  induction clis with
  | nil => rfl
  | cons cli clis ih =>
    rw [List.map_cons, List.nodup_cons] at hnd
    rw [List.flatMap_cons, written_append, written_notifyClient (htcp cli List.mem_cons_self),
      ih (fun c hc => htcp c (List.mem_cons_of_mem _ hc)) hnd.2, List.map_cons]
    simp only [List.mem_cons]
    by_cases hbev : cli.bev = bev
    · -- the other clients have other bufferevents
      subst hbev
      rw [if_pos rfl, if_neg hnd.1, if_pos (.inl rfl), List.append_nil]
    · have hne : ¬ bev = cli.bev := fun h => hbev h.symm
      simp only [if_neg hbev, hne, false_or, List.nil_append]

/-- The modules of the database contribute in their order. -/
theorem flatMap_mods (mods : List Ggdmodviz) (db : ℤ) (f : Ggdmodviz → Option (List UInt8)) :
    (mods.flatMap fun m => if m.id ≠ db then [] else (f m).getD []) =
      ((mods.filter (·.id = db)).filterMap f).flatten := by
  induction mods with
  | nil => rfl
  | cons m mods ih =>
    rw [List.flatMap_cons, ih]
    by_cases hid : m.id = db
    · rw [List.filter_cons_of_pos (by simpa using hid), if_neg (by simpa using hid)]
      cases hf : f m with
      | none => rw [List.filterMap_cons_none hf]; rfl
      | some text => rw [List.filterMap_cons_some hf]; rfl
    · rw [List.filter_cons_of_neg (by simpa using hid), if_pos hid, List.nil_append]

/-- A notification brings its texts to the linked clients. -/
theorem written_notification {mods : List Ggdmodviz} {s : GlouglouViz} (hi : Inv mods s)
    {reply : Option RedisReply} {locals : Ntf} {out : List Ev}
    (h : redis_cb_notification s reply locals = .ok out) (bev : ℕ) :
    written bev out = if bev ∈ s.linked then (Op.notification reply locals).texts mods else [] := by
  unfold redis_cb_notification at h
  cases reply with
  | none =>
    simp only [Except.ok.injEq] at h
    rw [← h]
    split_ifs <;> rfl
  | some reply =>
    rcases hp : redis_parse_keyspace_notification reply locals with e | p
    · simp [hp] at h
    · simp only [hp] at h
      unfold Op.texts
      simp only [hp]
      by_cases hret : p.ret < 4
      · simp only [if_pos hret, Except.ok.injEq] at h
        rw [← h, if_pos hret]
        split_ifs <;> rfl
      · simp only [if_neg hret, Except.ok.injEq] at h
        rw [← h, if_neg hret, written_eq, List.flatMap_assoc, ← hi.mods_eq]
        by_cases hb : bev ∈ s.linked
        · rw [if_pos hb, ← flatMap_mods]
          congr 1
          funext m
          split_ifs
          · rfl
          · rw [← written_eq, written_clients hi.tcp hi.nodup]
            exact if_pos hb
        · rw [if_neg hb, List.flatMap_eq_nil_iff]
          intro m _
          split_ifs
          · rfl
          · rw [← written_eq, written_clients hi.tcp hi.nodup]
            exact if_neg hb

/-! ### The window of a client -/

/-- The client of this bufferevent is linked. -/
def Live (mods : List Ggdmodviz) (bev : ℕ) (viz : GlouglouViz) : Prop :=
  Inv mods viz ∧ bev ∈ viz.linked

/-- The client of this bufferevent was removed. -/
def Gone (mods : List Ggdmodviz) (bev : ℕ) (viz : GlouglouViz) : Prop :=
  Inv mods viz ∧ bev < viz.bevs ∧ bev ∉ viz.linked

/-- A client stays linked under the callbacks that do not remove it, and is written what they
render. -/
theorem live_step {mods : List Ggdmodviz} {bev : ℕ} {s t : GlouglouViz} {op : Op} {out : List Ev}
    (hl : Live mods bev s) (hop : op.removes bev = false) (h : Step s op out t) :
    Live mods bev t ∧ written bev out = op.texts mods := by
  have ht := (step_inv hl.1 h).1
  rcases step_cases hl.1 h with ⟨rfl, rfl, rfl⟩ | ⟨rfl, rfl, rfl⟩ | ⟨cli, hcli, rfl, rfl, rfl⟩ |
    ⟨reply, locals, rfl, rfl, hn⟩ | ⟨rfl, -⟩
  · exact ⟨hl, rfl⟩
  · refine ⟨⟨ht, List.mem_cons_of_mem _ hl.2⟩, ?_⟩
    have hne : s.bevs ≠ bev := (hl.1.fresh bev hl.2).ne'
    simp [written, hne, Op.texts]
  · refine ⟨⟨ht, ?_⟩, rfl⟩
    obtain ⟨c, hc, rfl⟩ := List.mem_map.1 hl.2
    have hne : c ≠ cli := by
      rintro rfl
      simp [Op.removes] at hop
    exact List.mem_map_of_mem ((List.mem_erase_of_ne hne).2 hc)
  · exact ⟨hl, by rw [written_notification hl.1 hn, if_pos hl.2]⟩
  · cases hop

/-- The callback that removes a client writes nothing to it. -/
theorem live_removed {mods : List Ggdmodviz} {bev : ℕ} {s t : GlouglouViz} {op : Op}
    {out : List Ev} (hl : Live mods bev s) (hop : op.removes bev = true) (h : Step s op out t) :
    Gone mods bev t ∧ written bev out = [] := by
  have ht := (step_inv hl.1 h).1
  have hlt := hl.1.fresh bev hl.2
  rcases step_cases hl.1 h with ⟨rfl, -⟩ | ⟨rfl, -⟩ | ⟨cli, hcli, rfl, rfl, rfl⟩ |
    ⟨reply, locals, rfl, -⟩ | ⟨rfl, -, hbevs, hnil, hcl⟩
  · cases hop
  · cases hop
  · have hbev : cli.bev = bev := by simpa [Op.removes] using hop
    subst hbev
    refine ⟨⟨ht, hlt, fun hmem => ?_⟩, rfl⟩
    -- were it still linked, it would have been linked twice
    have hnd := hl.1.nodup
    rw [GlouglouViz.linked, (List.perm_cons_erase hcli).map _ |>.nodup_iff, List.map_cons,
      List.nodup_cons] at hnd
    exact hnd.1 hmem
  · cases hop
  · refine ⟨⟨ht, hbevs ▸ hlt, ?_⟩, written_of_closes hcl⟩
    rw [GlouglouViz.linked, hnil]
    exact List.not_mem_nil

/-- A removed client stays removed, and nothing is written to it. -/
theorem gone_step {mods : List Ggdmodviz} {bev : ℕ} {s t : GlouglouViz} {op : Op} {out : List Ev}
    (hg : Gone mods bev s) (h : Step s op out t) : Gone mods bev t ∧ written bev out = [] := by
  obtain ⟨hi, hlt, hnot⟩ := hg
  have ht := (step_inv hi h).1
  rcases step_cases hi h with ⟨rfl, rfl, rfl⟩ | ⟨rfl, rfl, rfl⟩ | ⟨cli, hcli, rfl, rfl, rfl⟩ |
    ⟨reply, locals, rfl, rfl, hn⟩ | ⟨rfl, -, hbevs, hnil, hcl⟩
  · exact ⟨⟨hi, hlt, hnot⟩, rfl⟩
  · refine ⟨⟨ht, Nat.lt_succ_of_lt hlt, ?_⟩, ?_⟩
    · rw [linked_add, List.mem_cons, not_or]
      exact ⟨hlt.ne, hnot⟩
    · simp [written, hlt.ne']
  · exact ⟨⟨ht, hlt, fun hmem => hnot (linked_del_subset s cli bev hmem)⟩, rfl⟩
  · exact ⟨⟨hi, hlt, hnot⟩, by rw [written_notification hi hn, if_neg hnot]⟩
  · refine ⟨⟨ht, hbevs ▸ hlt, ?_⟩, written_of_closes hcl⟩
    rw [GlouglouViz.linked, hnil]
    exact List.not_mem_nil

/-- Nothing is written to a bufferevent before it is made. -/
theorem written_before {mods : List Ggdmodviz} {s t : GlouglouViz} {ops : List Op} {es : List Ev}
    (h : Run Step s ops es t) (hi : Inv mods s) {bev : ℕ} (hb : t.bevs ≤ bev) :
    written bev es = [] := by
  induction h with
  | nil => rfl
  | @snoc ops es u op out t hr hstep ih =>
    have hu := (run_inv hr hi).1
    have hle : u.bevs ≤ t.bevs := by
      rw [(step_inv hu hstep).2]
      exact Nat.le_add_right _ _
    rw [written_append, ih (hle.trans hb), List.nil_append]
    rcases step_cases hu hstep with ⟨rfl, rfl, rfl⟩ | ⟨rfl, rfl, rfl⟩ | ⟨cli, hcli, rfl, rfl, rfl⟩ |
      ⟨reply, locals, rfl, rfl, hn⟩ | ⟨rfl, -, -, -, hcl⟩
    · rfl
    · have hne : u.bevs ≠ bev := (Nat.lt_of_succ_le hb).ne
      simp [written, hne]
    · rfl
    · rw [written_notification hu hn, if_neg fun hmem => ?_]
      exact absurd (hu.fresh bev hmem) (not_lt.2 hb)
    · exact written_of_closes hcl

/-- What a client is sent that is accepted in a run from any state. -/
theorem written_window {mods : List Ggdmodviz} {pre post : List Op} {es : List Ev}
    {s t : GlouglouViz} (hi : Inv mods s)
    (h : Run Step s (pre ++ .accept true :: post) es t) :
    written (s.bevs + accepted pre) es = MSG_WELCOME ++
      (post.takeWhile fun op => !op.removes (s.bevs + accepted pre)).flatMap (Op.texts mods) := by
  obtain ⟨u, es₁, es₂, hpre, hrest, rfl⟩ := h.split
  obtain ⟨v, out, es₃, hstep, hpost, rfl⟩ := hrest.cons_inv
  obtain ⟨hu, hbevs⟩ := run_inv hpre hi
  have hv := (step_inv hu hstep).1
  obtain ⟨rfl, rfl⟩ := Prod.mk.inj (Option.some.inj hstep)
  rw [← hbevs]
  have hlive : Live mods u.bevs (servtcp_cb_listener u true).1 := ⟨hv, List.mem_cons_self⟩
  have hwindow := hpost.window (Live mods u.bevs) (Gone mods u.bevs)
    (Op.removes u.bevs) (Op.texts mods) (Ev.writtenTo u.bevs)
    (fun _ _ _ _ hl hop hs => written_eq _ _ ▸ live_step hl hop hs)
    (fun _ _ _ _ hl hop hs => written_eq _ _ ▸ live_removed hl hop hs)
    (fun _ _ _ _ hg hs => written_eq _ _ ▸ gone_step hg hs) hlive
  have hwelcome : written u.bevs [.bufferevent_write u.bevs MSG_WELCOME] = MSG_WELCOME := by
    simp [written]
  rw [written_append, written_append, written_before hpre hi le_rfl, hwelcome,
    written_eq _ es₃, hwindow, List.nil_append]

/-- In a run from the start the bufferevents are numbered by the accepts. -/
theorem start_window {mods : List Ggdmodviz} {pre post : List Op} {es : List Ev}
    {t : GlouglouViz} (h : Run Step (start mods) (pre ++ .accept true :: post) es t) :
    written (accepted pre) es = MSG_WELCOME ++
      (post.takeWhile fun op => !op.removes (accepted pre)).flatMap (Op.texts mods) := by
  have hwindow := written_window (inv_start mods) h
  rwa [show (start mods).bevs = 0 from rfl, Nat.zero_add] at hwindow

/-- **Delivery.**  The bytes written to a client, in any run, are the welcome and then the texts
of every notification up to its removal. -/
theorem delivery (mods : List Ggdmodviz) {pre post : List Op} {es : List Ev} {t : GlouglouViz}
    (h : Run Step (start mods) (pre ++ .accept true :: post) es t) :
    written (accepted pre) es =
      MSG_WELCOME ++
        (post.takeWhile fun op => !op.removes (accepted pre)).flatMap (Op.texts mods) :=
  start_window h

/-- A client of two modules of database 0, of which one fails, and one of database 1: it is
sent one text, and nothing after it left. -/
theorem delivery_one :
    written 0 [.bufferevent_write 0 MSG_WELCOME, .bufferevent_write 0 (ascii "AAA"),
      .bufferevent_free 0] = MSG_WELCOME ++ ascii "AAA" := by
  let text : ℤ → Option (List UInt8) → ℤ → Option (List UInt8) → ℤ → Rendered :=
    fun len _ _ _ _ => ⟨len, fun _ => 65⟩
  let mods : List Ggdmodviz := [⟨0, text 3⟩, ⟨0, text (-1)⟩, ⟨1, text 2⟩]
  let set : Op := .notification (some (pmessage (ascii "pmessage") (ascii "__keyevent@*__:*")
    (ascii "__keyevent@0__:set") (ascii "foo"))) ntf₀
  let linked : GlouglouViz := ⟨mods, [⟨0, .GGDVIZ_CLI_TCP, 0⟩], 0, 1, true, 1⟩
  have hadd : Step (start mods) (.accept true) [.bufferevent_write 0 MSG_WELCOME] linked := rfl
  have hset : Step linked set [.bufferevent_write 0 (ascii "AAA")] linked := rfl
  have hdel : Step linked (.event 0) [.bufferevent_free 0] ⟨mods, [], 2 ^ 32 - 1, 1, true, 1⟩ := rfl
  have hsilent :
      Step ⟨mods, [], 2 ^ 32 - 1, 1, true, 1⟩ set [] ⟨mods, [], 2 ^ 32 - 1, 1, true, 1⟩ := rfl
  have hrun : Run Step (start mods) ([] ++ .accept true :: [set, .event 0, set]) _ _ :=
    Run.cons hadd (Run.cons hset (Run.cons hdel (Run.single hsilent)))
  exact delivery mods hrun

end Viz
