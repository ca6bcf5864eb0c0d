import Glouglou.Glougloud.Viz.Shutdown

/-!
# The modules of the viz server

`_modules_load` of `viz.c` goes through a directory and links every shared object that has the
two symbols and a configuration of a recent version of the interface; a module has static data
of its own, which every call of its `ggdmodviz_text_get` may change.

* `modules_load`: the loop over the directory, and `modules_load_eq`, what it links;
* `Server`: the viz server with the modules it has loaded;
* `server_simulated`: as long as the texts do not depend on the static data (`Steady`) the
  server cannot be told from one whose modules are functions (`Viz.Step`), so `module_order`.
-/

open CInt CString Redis Transducer

namespace Viz

def GLOUGLOUD_MOD_API_VERSION : ℤ := 1

def GLOUGLOUD_MOD_PATH : List UInt8 := ascii "/modules/"

/-- `sizeof(ent->d_name)` -/
def d_nameSize : ℕ := 256

/-- `struct ggdmodviz_conf` -/
structure GgdmodvizConf where
  id : ℤ
  api_version : ℤ
  deriving DecidableEq

variable {T S : Type}

/-- A shared object, by the symbols the server looks up: what `ggdmodviz_init` returns when it
is called, and the function `ggdmodviz_text_get`. -/
structure Library (T : Type) where
  ggdmodviz_init : Option (Option GgdmodvizConf)
  ggdmodviz_text_get : Option T

/-- `struct ggdmodviz` -/
structure Loaded (T : Type) where
  name : List UInt8
  conf : GgdmodvizConf
  ggdmodviz_text_get : T

/-- `strnlen` -/
def strnlen (s : List UInt8) (maxlen : ℕ) : ℕ := min (view s).length maxlen

/-- The file name that `dlopen` is given. -/
def modulePath (d_name : List UInt8) : List UInt8 :=
  GLOUGLOUD_MOD_PATH ++ ascii "/" ++ view d_name

/-- The loop of `_modules_load` over the entries of the directory, with the modules linked. -/
def loadLoop (dlopen : List UInt8 → Option (Library T)) (mods : List (Loaded T)) :
    List (List UInt8) → List (Loaded T)
  | [] => mods
  | d_name :: ents =>
    let n := strnlen d_name d_nameSize
    if n = 0 ∨ n < 2 ∨ d_name.getD 0 0 = 46 then loadLoop dlopen mods ents
    else
      match dlopen (modulePath d_name) with
      | none => loadLoop dlopen mods ents
      | some handle =>
        match handle.ggdmodviz_init with
        | none => loadLoop dlopen mods ents
        | some init =>
          match handle.ggdmodviz_text_get with
          | none => loadLoop dlopen mods ents
          | some fn =>
            match init with
            | none => loadLoop dlopen mods ents
            | some modconf =>
              if modconf.api_version < GLOUGLOUD_MOD_API_VERSION then loadLoop dlopen mods ents
              else loadLoop dlopen (⟨view d_name, modconf, fn⟩ :: mods) ents

/-- `_modules_load`, on what `opendir` and `readdir` say of the directory. -/
def modules_load (dlopen : List UInt8 → Option (Library T)) (opendir : Option (List (List UInt8))) :
    ℤ × List (Loaded T) :=
  match opendir with
  | none => (-1, [])
  | some ents => (0, loadLoop dlopen [] ents)

/-! ### What is linked -/

/-- The name of an entry that is looked at: at least two bytes, and not hidden. -/
def Named (d_name : List UInt8) : Prop := 2 ≤ strnlen d_name d_nameSize ∧ d_name.getD 0 0 ≠ 46

instance (d_name : List UInt8) : Decidable (Named d_name) :=
  inferInstanceAs (Decidable (_ ∧ _))

/-- What is linked of a shared object, if it is one of the server's. -/
def Library.link (lib : Library T) (name : List UInt8) : Option (Loaded T) :=
  match lib.ggdmodviz_init, lib.ggdmodviz_text_get with
  | some (some conf), some fn =>
    if GLOUGLOUD_MOD_API_VERSION ≤ conf.api_version then some ⟨name, conf, fn⟩ else none
  | _, _ => none

/-- What is linked of an entry. -/
def loadable (dlopen : List UInt8 → Option (Library T)) (d_name : List UInt8) : Option (Loaded T) :=
  if Named d_name then (dlopen (modulePath d_name)).bind fun lib => lib.link (view d_name) else none

/-- One turn of the loop links what there is to link, in front. -/
theorem loadLoop_cons (dlopen : List UInt8 → Option (Library T)) (mods : List (Loaded T))
    (d_name : List UInt8) (ents : List (List UInt8)) :
    loadLoop dlopen mods (d_name :: ents) =
      loadLoop dlopen ((loadable dlopen d_name).toList ++ mods) ents := by
  unfold loadable
  by_cases hname : Named d_name
  · have hnot : ¬ (strnlen d_name d_nameSize = 0 ∨ strnlen d_name d_nameSize < 2 ∨
        d_name.getD 0 0 = 46) := by
      rintro (h | h | h)
      · have := hname.1
        omega
      · exact absurd hname.1 (not_le.2 h)
      · exact hname.2 h
    rw [loadLoop, if_pos hname]
    simp only [if_neg hnot]
    rcases dlopen (modulePath d_name) with _ | ⟨init, fn⟩
    · rfl
    rcases init with _ | init
    · rfl
    rcases fn with _ | fn
    · cases init <;> rfl
    rcases init with _ | conf
    · rfl
    · simp only [Option.bind_some, Library.link]
      by_cases hapi : conf.api_version < GLOUGLOUD_MOD_API_VERSION
      · rw [if_pos hapi, if_neg (not_le.2 hapi)]
        rfl
      · rw [if_neg hapi, if_pos (not_lt.1 hapi)]
        rfl
  · have hskip : strnlen d_name d_nameSize = 0 ∨ strnlen d_name d_nameSize < 2 ∨
        d_name.getD 0 0 = 46 := by
      by_contra hno
      simp only [not_or] at hno
      exact hname ⟨by omega, hno.2.2⟩
    rw [loadLoop, if_neg hname]
    simp only [if_pos hskip]
    rfl

/-- The modules linked are those of the entries that have one, the last entry first. -/
theorem modules_load_eq (dlopen : List UInt8 → Option (Library T)) (ents : List (List UInt8)) :
    modules_load dlopen (some ents) = (0, (ents.filterMap (loadable dlopen)).reverse) := by
  have hloop : ∀ mods, loadLoop dlopen mods ents =
      (ents.filterMap (loadable dlopen)).reverse ++ mods := by
    induction ents with
    | nil => exact fun _ => rfl
    | cons d_name ents ih =>
      intro mods
      rw [loadLoop_cons, ih]
      rcases h : loadable dlopen d_name with _ | m
      · rw [List.filterMap_cons_none h]
        rfl
      · rw [List.filterMap_cons_some h, List.reverse_cons, List.append_assoc]
        rfl
  rw [modules_load, hloop, List.append_nil]

/-! ### The server with its modules -/

/-- How a module's function is called: with its static data, and what it leaves of them. -/
abbrev TextGet (T S : Type) :=
  T → S → Option (List UInt8) → ℤ → Option (List UInt8) → ℤ → Rendered × S

/-- A module with its static data. -/
structure Instance (T S : Type) where
  mod : Loaded T
  data : S

/-- The server and its modules; `viz.mods` is not used. -/
structure Server (T S : Type) where
  viz : GlouglouViz
  mods : List (Instance T S)

variable (text_get : TextGet T S)

/-- The call for a notification. -/
def TextGet.call (fn : T) (data : S) (ntf : Ntf) : Rendered × S :=
  text_get fn data ntf.ntf_op ntf.ntf_op_len ntf.ntf_target ntf.ntf_target_len

/-- The inner loop of `_redis_cb_notification`: one call for every TCP client. -/
def notifyClients (ntf : Ntf) (fn : T) : S → List GgdvizCli → S × List Ev
  | data, [] => (data, [])
  | data, cli :: clis =>
    match cli.type with
    | .GGDVIZ_CLI_TCP =>
      let r := TextGet.call text_get fn data ntf
      let r' := notifyClients ntf fn r.2 clis
      (r'.1, (if r.1.len ≤ 0 then [] else
        [.bufferevent_write cli.bev (r.1.s.read 0 r.1.len.toNat)]) ++ r'.2)
    | .GGDVIZ_CLI_WS => notifyClients ntf fn data clis

/-- The outer loop, over the modules. -/
def notifyMods (ntf : Ntf) (clients : List GgdvizCli) :
    List (Instance T S) → List (Instance T S) × List Ev
  | [] => ([], [])
  | m :: mods =>
    let r' := notifyMods ntf clients mods
    if m.mod.conf.id ≠ ntf.ntf_db then (m :: r'.1, r'.2)
    else
      let r := notifyClients text_get ntf m.mod.ggdmodviz_text_get m.data clients
      ({ m with data := r.1 } :: r'.1, r.2 ++ r'.2)

/-- `_redis_cb_notification`, with the static data of the modules. -/
def Server.redis_cb_notification (srv : Server T S) (reply : Option RedisReply) (locals : Ntf) :
    Except Fault (Server T S × List Ev) :=
  match reply with
  | none => .ok (srv, [])
  | some reply =>
    match redis_parse_keyspace_notification reply locals with
    | .error e => .error e
    | .ok p =>
      if p.ret < 4 then .ok (srv, [])
      else
        let r := notifyMods text_get p.ntf srv.viz.clients srv.mods
        .ok ({ srv with mods := r.1 }, r.2)

/-- One callback. -/
def Server.exec (srv : Server T S) : Op → Option (Server T S × List Ev)
  | .notification reply locals =>
    match srv.redis_cb_notification text_get reply locals with
    | .error _ => none
    | .ok r => some r
  | op => (Viz.exec srv.viz op).map fun r => ({ srv with viz := r.1 }, r.2)

/-- The server after `_modules_load`, its modules with the static data they start with. -/
def Server.start (mods : List (Loaded T)) (data : Loaded T → S) : Server T S :=
  ⟨Viz.start [], mods.map fun m => ⟨m, data m⟩⟩

/-- The texts for a notification do not depend on the static data. -/
def Steady (op : Op) : Prop :=
  ∀ reply locals p, op = .notification (some reply) locals →
    redis_parse_keyspace_notification reply locals = .ok p → ¬ p.ret < 4 → ∀ fn data data',
      (TextGet.call text_get fn data p.ntf).1.text = (TextGet.call text_get fn data' p.ntf).1.text

/-- A callback, on a notification for which the texts are steady. -/
def Server.Step (srv : Server T S) (op : Op) (out : List Ev) (srv' : Server T S) : Prop :=
  srv.exec text_get op = some (srv', out) ∧ Steady text_get op

/-! ### Modules as functions -/

/-- The module as a function, on the static data it started with. -/
def Loaded.pure (m : Loaded T) (data : S) : Ggdmodviz where
  id := m.conf.id
  ggdmodviz_text_get := fun op op_len target target_len =>
    (text_get m.ggdmodviz_text_get data op op_len target target_len).1

/-- The server with its modules as functions. -/
def Server.pure (data : Loaded T → S) (srv : Server T S) : GlouglouViz :=
  { srv.viz with mods := srv.mods.map fun m => m.mod.pure text_get (data m.mod) }

variable {text_get}

/-- What is written to a client is the text, if there is one. -/
theorem notifyClient_text (ntf : Ntf) (m : Ggdmodviz) {cli : GgdvizCli}
    (h : cli.type = .GGDVIZ_CLI_TCP) :
    notifyClient ntf m cli =
      match (m.render ntf).text with
      | none => []
      | some text => [.bufferevent_write cli.bev text] := by
  unfold notifyClient Rendered.text
  rw [h]
  by_cases hlen : (m.render ntf).len ≤ 0
  · simp only [if_pos hlen]
  · simp only [if_neg hlen]

/-- The inner loop writes what the module as a function would. -/
theorem notifyClients_eq {ntf : Ntf} {m : Loaded T}
    (hst : ∀ data data', (TextGet.call text_get m.ggdmodviz_text_get data ntf).1.text =
      (TextGet.call text_get m.ggdmodviz_text_get data' ntf).1.text)
    (data₀ data : S) (clis : List GgdvizCli) :
    (notifyClients text_get ntf m.ggdmodviz_text_get data clis).2 =
      clis.flatMap (notifyClient ntf (m.pure text_get data₀)) := by
  induction clis generalizing data with
  | nil => rfl
  | cons cli clis ih =>
    rw [List.flatMap_cons]
    rcases htype : cli.type with _ | _
    · simp only [notifyClients, htype]
      rw [ih, notifyClient_text ntf _ htype]
      congr 1
      have htext := hst data data₀
      rw [show (m.pure text_get data₀).render ntf =
        (TextGet.call text_get m.ggdmodviz_text_get data₀ ntf).1 from rfl, ← htext, Rendered.text]
      by_cases hlen : (TextGet.call text_get m.ggdmodviz_text_get data ntf).1.len ≤ 0
      · simp only [if_pos hlen]
      · simp only [if_neg hlen]
    · simp only [notifyClients, htype]
      rw [ih, notifyClient, htype]
      rfl

/-- So does the outer loop, and it leaves the modules what they are. -/
theorem notifyMods_eq {ntf : Ntf} (data₀ : Loaded T → S)
    (hst : ∀ fn data data', (TextGet.call text_get fn data ntf).1.text =
      (TextGet.call text_get fn data' ntf).1.text)
    (clients : List GgdvizCli) (mods : List (Instance T S)) :
    (notifyMods text_get ntf clients mods).1.map (·.mod) = mods.map (·.mod) ∧
      (notifyMods text_get ntf clients mods).2 =
        (mods.map fun m => m.mod.pure text_get (data₀ m.mod)).flatMap fun m =>
          if m.id ≠ ntf.ntf_db then [] else clients.flatMap (notifyClient ntf m) := by
  induction mods with
  | nil => exact ⟨rfl, rfl⟩
  | cons m mods ih =>
    obtain ⟨ih₁, ih₂⟩ := ih
    simp only [notifyMods, List.map_cons, List.flatMap_cons]
    by_cases hid : m.mod.conf.id ≠ ntf.ntf_db
    · rw [if_pos hid, if_pos (show (m.mod.pure text_get (data₀ m.mod)).id ≠ ntf.ntf_db from hid)]
      exact ⟨by rw [List.map_cons, ih₁], ih₂⟩
    · rw [if_neg hid, if_neg (show ¬ (m.mod.pure text_get (data₀ m.mod)).id ≠ ntf.ntf_db from hid)]
      refine ⟨by rw [List.map_cons, ih₁], ?_⟩
      rw [ih₂, notifyClients_eq (hst _) (data₀ m.mod)]

/-- The loop of `_servtcp_stop` does not look at the modules. -/
theorem stopLoop_mods (viz : GlouglouViz) (mods : List Ggdmodviz) (clis : List GgdvizCli) :
    stopLoop { viz with mods := mods } clis =
      ({ (stopLoop viz clis).1 with mods := mods }, (stopLoop viz clis).2) := by
  induction clis generalizing viz with
  | nil => rfl
  | cons cli clis ih =>
    have hdel := ih (servtcp_cli_del viz cli).1
    by_cases htype : cli.type = .GGDVIZ_CLI_TCP
    · simp only [stopLoop, if_pos htype]
      rw [show (servtcp_cli_del { viz with mods := mods } cli).1 =
        { (servtcp_cli_del viz cli).1 with mods := mods } from rfl, hdel]
      rfl
    · simp only [stopLoop, if_neg htype]
      exact ih viz

/-- Nor do the other callbacks. -/
theorem exec_mods (viz : GlouglouViz) (mods : List Ggdmodviz) {op : Op}
    (h : ∀ reply locals, op ≠ .notification reply locals) :
    Viz.exec { viz with mods := mods } op =
      (Viz.exec viz op).map fun r => ({ r.1 with mods := mods }, r.2) := by
  cases op with
  | accept ok => cases ok <;> rfl
  | event bev =>
    simp only [Viz.exec, Option.map_map]
    rfl
  | notification reply locals => exact absurd rfl (h reply locals)
  | stop =>
    simp only [Viz.exec, servtcp_stop, Option.map_some]
    rw [show ({ ({ viz with mods := mods } : GlouglouViz) with listener := false } : GlouglouViz) =
      { { viz with listener := false } with mods := mods } from rfl, stopLoop_mods]

/-- A callback is one of the server whose modules are functions, and leaves the modules what
they are. -/
theorem server_step {srv srv' : Server T S} {op : Op} {out : List Ev}
    (h : Server.Step text_get srv op out srv') (data₀ : Loaded T → S) :
    Viz.Step (srv.pure text_get data₀) op out (srv'.pure text_get data₀) := by
  obtain ⟨hexec, hst⟩ := h
  have hother : (∀ reply locals, op ≠ .notification reply locals) →
      (Viz.exec srv.viz op).map (fun r => (({ srv with viz := r.1 } : Server T S), r.2)) =
        some (srv', out) →
      Viz.Step (srv.pure text_get data₀) op out (srv'.pure text_get data₀) := by
    intro hop heq
    obtain ⟨⟨viz', out'⟩, hviz, hpair⟩ := Option.map_eq_some_iff.1 heq
    obtain ⟨rfl, rfl⟩ := Prod.mk.inj hpair
    unfold Viz.Step Server.pure
    rw [exec_mods srv.viz _ hop, hviz]
    rfl
  cases op with
  | accept ok => exact hother nofun hexec
  | event bev => exact hother nofun hexec
  | stop => exact hother nofun hexec
  | notification reply locals =>
    unfold Server.exec Server.redis_cb_notification at hexec
    unfold Viz.Step Viz.exec redis_cb_notification
    cases reply with
    | none =>
      cases hexec
      rfl
    | some reply =>
      rcases hp : redis_parse_keyspace_notification reply locals with e | p
      · simp only [hp] at hexec
        cases hexec
      · simp only [hp] at hexec ⊢
        by_cases hret : p.ret < 4
        · simp only [if_pos hret] at hexec ⊢
          cases hexec
          rfl
        · simp only [if_neg hret, Option.some.injEq, Prod.mk.injEq] at hexec ⊢
          obtain ⟨rfl, rfl⟩ := hexec
          obtain ⟨hmods, hev⟩ :=
            notifyMods_eq data₀ (hst reply locals p rfl hp hret) srv.viz.clients srv.mods
          refine ⟨?_, hev.symm⟩
          -- the same modules, with other static data
          have hpure := congrArg (List.map fun m => Loaded.pure text_get m (data₀ m)) hmods
          rw [List.map_map, List.map_map] at hpure
          unfold Server.pure
          rw [show (notifyMods text_get p.ntf srv.viz.clients srv.mods).1.map
            (fun m => m.mod.pure text_get (data₀ m.mod)) = srv.mods.map
              fun m => m.mod.pure text_get (data₀ m.mod) from hpure]

theorem server_simulated {srv srv' : Server T S} {ops : List Op} {es : List Ev}
    (h : Run (Server.Step text_get) srv ops es srv') (data₀ : Loaded T → S) :
    Run Viz.Step (srv.pure text_get data₀) ops es (srv'.pure text_get data₀) := by
  induction h with
  | nil => exact .nil
  | snoc _ hstep ih => exact ih.snoc (server_step hstep data₀)

theorem start_pure (mods : List (Loaded T)) (data : Loaded T → S) :
    (Server.start mods data).pure text_get data =
      Viz.start (mods.map fun m => m.pure text_get (data m)) := by
  unfold Server.pure Server.start
  rw [List.map_map]
  rfl

/-- **The order of the modules.**  Whatever is in the directory of modules, a client is sent the
welcome and then, for every notification up to its removal, the texts of the modules of its
database that were linked, the one whose entry was read last first. -/
theorem module_order (dlopen : List UInt8 → Option (Library T)) (ents : List (List UInt8))
    (data : Loaded T → S) {pre post : List Op} {es : List Ev} {srv : Server T S}
    (h : Run (Server.Step text_get) (Server.start (modules_load dlopen (some ents)).2 data)
      (pre ++ .accept true :: post) es srv) :
    written (accepted pre) es = MSG_WELCOME ++
      (post.takeWhile fun op => !op.removes (accepted pre)).flatMap
        (Op.texts (((ents.filterMap (loadable dlopen)).reverse).map fun m =>
          m.pure text_get (data m))) := by
  have hrun := server_simulated h data
  rw [start_pure, modules_load_eq] at hrun
  exact start_window hrun

/-- A directory with two modules of database 0, which count their calls, and two other entries:
the text of the last one comes first. -/
theorem module_order_two :
    let dlopen : List UInt8 → Option (Library (UInt8 × ℤ)) := fun path =>
      if path = ascii "/modules//a.so" then some ⟨some (some ⟨0, 1⟩), some (65, 1)⟩
      else if path = ascii "/modules//b.so" then some ⟨some (some ⟨0, 2⟩), some (66, 2)⟩
      else none
    let text_get : TextGet (UInt8 × ℤ) ℕ := fun fn calls _ _ _ _ =>
      (⟨fn.2, fun _ => fn.1⟩, calls + 1)
    ∃ es srv, Run (Server.Step text_get) (Server.start (modules_load dlopen
        (some [ascii ".", ascii "a.so", ascii "readme", ascii "b.so"])).2 fun _ => 0)
        ([] ++ .accept true :: [.notification (some (pmessage (ascii "pmessage")
          (ascii "__keyevent@*__:*") (ascii "__keyevent@0__:set") (ascii "foo"))) ntf₀]) es srv ∧
      written 0 es = MSG_WELCOME ++ ascii "BBA" := by
  intro dlopen text_get
  have hst : ∀ op, Steady text_get op := fun op reply locals p _ _ _ fn data data' => rfl
  have hrun : ∃ es srv, Run (Server.Step text_get) (Server.start (modules_load dlopen
      (some [ascii ".", ascii "a.so", ascii "readme", ascii "b.so"])).2 fun _ => 0)
      ([] ++ .accept true :: [.notification (some (pmessage (ascii "pmessage")
        (ascii "__keyevent@*__:*") (ascii "__keyevent@0__:set") (ascii "foo"))) ntf₀]) es srv :=
    ⟨_, _, Run.cons ⟨rfl, hst _⟩ (Run.single ⟨rfl, hst _⟩)⟩
  obtain ⟨es, srv, hrun⟩ := hrun
  refine ⟨es, srv, hrun, ?_⟩
  rw [show (0 : ℕ) = accepted [] from rfl, module_order dlopen _ (fun _ => 0) hrun]
  rfl

end Viz
