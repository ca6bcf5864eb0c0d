import Glouglou.Glougloud.Viz.Modules
import Glouglou.Glougloud.ModNet.Stream
import Glouglou.Glougloud.Redis.Channel

/-!
# From the events of redis to a client

The viz server with the modules of the repository, as `_modules_load` finds them: redis publishes
keyspace events, `redis_parse_keyspace_notification` takes each notification apart, the network
module renders the key in its static buffer, once for every client, and the server writes the
text.  `end_to_end` is about all of this together: what a client is sent are the lines of the
node events of its time, and they can be read back exactly if the keys are clean.
-/

open CInt CString Redis Viz ModNet Transducer

namespace Service

/-- The modules of the repository. -/
inductive RepoMod
  | mod_0_internal
  | mod_1_net
  deriving DecidableEq

/-- `ggdmodviz_init` of the two modules; `GLOUGLOUD_MOD_0_INTERNAL_ID` is in a header that the
repository does not have. -/
def ggdmodviz_init (GLOUGLOUD_MOD_0_INTERNAL_ID : ℤ) : RepoMod → GgdmodvizConf
  | .mod_0_internal => ⟨GLOUGLOUD_MOD_0_INTERNAL_ID, 1⟩
  | .mod_1_net => ⟨GLOUGLOUD_MOD_NET_ID, 1⟩

/-- `ggdmodviz_text_get` of the two modules; the static data are the `text` of the second. -/
def text_get : TextGet RepoMod Mem
  | .mod_0_internal, text, _, _, _, _ => (⟨-1, text⟩, text)
  | .mod_1_net, text, op, op_len, target, target_len =>
    let r := ModNet.ggdmodviz_text_get text op op_len (target.getD []) target_len
    (r, r.s)

/-- The shared object of a module. -/
def library (internalId : ℤ) (m : RepoMod) : Library RepoMod :=
  ⟨some (some (ggdmodviz_init internalId m)), some m⟩

/-- The modules linked from a directory, in which some names are shared objects of the two
modules. -/
def linkedMods (internalId : ℤ) (dlopen : List UInt8 → Option RepoMod)
    (ents : List (List UInt8)) : List (Loaded RepoMod) :=
  (modules_load (fun path => (dlopen path).map (library internalId)) (some ents)).2

/-- A keyspace event: an operation on a key of a database. -/
structure Event where
  db : ℕ
  op : List UInt8
  key : List UInt8

/-- An event whose channel name the parser's buffers hold, of a key of at most 4000 bytes. -/
structure Event.Valid (e : Event) : Prop where
  db_lt : e.db < 2 ^ 31
  op_ne : e.op ≠ []
  op_len : e.op.length ≤ 63
  op_no_zero : 0 ∉ e.op
  key_len : e.key.length ≤ 4000

/-- What a subscriber of `__keyevent@*__:*` is sent for an event. -/
def Event.reply (e : Event) : RedisReply :=
  pmessage (ascii "pmessage") (ascii "__keyevent@*__:*")
    (channelName (ascii "keyevent") e.db e.op) e.key

/-- What happens to the server. -/
inductive ServiceOp
  | accept (ok : Bool)
  | event (bev : ℕ)
  | publish (e : Event) (locals : Ntf)
  | stop

/-- The callback that is invoked. -/
def ServiceOp.callback : ServiceOp → Op
  | .accept ok => .accept ok
  | .event bev => .event bev
  | .publish e locals => .notification (some e.reply) locals
  | .stop => .stop

/-- The events published are valid. -/
def ServiceOp.Valid : ServiceOp → Prop
  | .publish e _ => e.Valid
  | _ => True

/-- The key of a node event that is published. -/
def ServiceOp.nodeKeys : ServiceOp → List (List UInt8)
  | .publish e _ => if (e.db : ℤ) = GLOUGLOUD_MOD_NET_ID ∧ Accepted e.key then [e.key] else []
  | _ => []

/-- One callback. -/
def Step (srv : Server RepoMod Mem) (op : ServiceOp) (out : List Ev)
    (srv' : Server RepoMod Mem) : Prop :=
  srv.exec text_get op.callback = some (srv', out) ∧ op.Valid

/-! ### One event -/

/-- The parser takes a valid event apart. -/
theorem parse_published {e : Event} (h : e.Valid) (locals : Ntf) :
    ∃ p, redis_parse_keyspace_notification e.reply locals = .ok p ∧ p.ret = 4 ∧
      p.ntf.ntf_db = e.db ∧ p.ntf.ntf_target = some e.key ∧
      p.ntf.ntf_target_len = int32 e.key.length := by
  have hdoc : Documented (channelName (ascii "keyevent") e.db e.op) (ascii "keyevent")
      (decimal e.db) e.op :=
    documented_channel (by decide) (by decide) (by decide) (by decide) h.db_lt h.op_ne h.op_len
      h.op_no_zero
  have hatoi : atoi (decimal e.db) = e.db := by rw [hdoc.atoi_db, (decimal_digits e.db).2.2]
  refine ⟨⟨4, ((locals.opened (ascii "pmessage") (ascii "__keyevent@*__:*")).read (ascii "keyevent")
    (decimal e.db) e.op).target e.key, [copyToken (ascii "keyevent"), copyToken e.op]⟩, ?_,
    rfl, hatoi, rfl, rfl⟩
  rw [Event.reply, parse_pmessage, hdoc.parse]

/-- What a module renders of a key, whatever its static data are. -/
def rendered (m : RepoMod) (key : List UInt8) : Option (List UInt8) :=
  if m = .mod_1_net ∧ Accepted key then some (lineText key ++ [10]) else none

theorem call_text {ntf : Ntf} {key : List UInt8} (htarget : ntf.ntf_target = some key)
    (hlen : ntf.ntf_target_len = int32 key.length) (hkey : key.length ≤ 4000) (m : RepoMod)
    (text : Mem) : (TextGet.call text_get m text ntf).1.text = rendered m key := by
  cases m with
  | mod_0_internal => rfl
  | mod_1_net =>
    have hcall : (TextGet.call text_get .mod_1_net text ntf).1 =
        (⟨ntf.ntf_op, ntf.ntf_op_len, key⟩ : ModNet.Notification).render text := by
      simp only [TextGet.call, text_get, htarget, hlen, Option.getD_some]
      rfl
    rw [hcall]
    by_cases ha : Accepted key
    · rw [(text_of_accepted text hkey ha).2, rendered, if_pos ⟨rfl, ha⟩]
    · rw [text_of_not_accepted text hkey ha, rendered, if_neg fun h => ha h.2]
      rfl

/-- The texts for a valid event do not depend on what the buffers of the modules hold. -/
theorem steady {op : ServiceOp} (h : op.Valid) : Steady text_get op.callback := by
  intro reply locals p hop hp _ fn data data'
  cases op with
  | accept ok => cases hop
  | event bev => cases hop
  | stop => cases hop
  | publish e locals' =>
    cases hop
    obtain ⟨p', hp', -, -, htarget, hlen⟩ := parse_published h locals
    rw [hp'] at hp
    cases hp
    rw [call_text htarget hlen h.key_len, call_text htarget hlen h.key_len]

/-- The server gets through a valid event. -/
theorem exists_step (srv : Server RepoMod Mem) {e : Event} (h : e.Valid) (locals : Ntf) :
    ∃ out srv', Step srv (.publish e locals) out srv' := by
  obtain ⟨p, hp, hret, -⟩ := parse_published h locals
  have hret : ¬ p.ret < 4 := by
    rw [hret]
    norm_num
  have hexec : srv.exec text_get (ServiceOp.publish e locals).callback =
      some ({ srv with mods := (notifyMods text_get p.ntf srv.viz.clients srv.mods).1 },
        (notifyMods text_get p.ntf srv.viz.clients srv.mods).2) := by
    unfold ServiceOp.callback Server.exec Server.redis_cb_notification
    simp only [hp, if_neg hret]
  exact ⟨_, _, hexec, h⟩

/-! ### All modules -/

/-- How many copies of the network module are linked. -/
def netMods (mods : List (Loaded RepoMod)) : ℕ :=
  mods.countP (·.ggdmodviz_text_get = .mod_1_net)

/-- A module that is linked has the configuration of its kind. -/
theorem linked_conf {internalId : ℤ} {dlopen : List UInt8 → Option RepoMod}
    {ents : List (List UInt8)} {m : Loaded RepoMod} (h : m ∈ linkedMods internalId dlopen ents) :
    m.conf = ggdmodviz_init internalId m.ggdmodviz_text_get := by
  rw [linkedMods, modules_load_eq, List.mem_reverse, List.mem_filterMap] at h
  obtain ⟨d_name, -, hload⟩ := h
  unfold loadable at hload
  split_ifs at hload with hname
  obtain ⟨lib, hlib, hlink⟩ := Option.bind_eq_some_iff.1 hload
  obtain ⟨r, -, rfl⟩ := Option.map_eq_some_iff.1 hlib
  simp only [Library.link, library] at hlink
  split_ifs at hlink
  cases hlink
  rfl

/-- The modules make of an event a line of its key for every copy of the network module. -/
theorem mods_texts {internalId : ℤ} {mods : List (Loaded RepoMod)}
    (hconf : ∀ m ∈ mods, m.conf = ggdmodviz_init internalId m.ggdmodviz_text_get)
    (data : Loaded RepoMod → Mem) {e : Event} (h : e.Valid) {ntf : Ntf}
    (hdb : ntf.ntf_db = e.db) (htarget : ntf.ntf_target = some e.key)
    (hlen : ntf.ntf_target_len = int32 e.key.length) (locals : Ntf) :
    (((mods.map fun m => m.pure text_get (data m)).filter (·.id = ntf.ntf_db)).filterMap
        fun m => (m.render ntf).text).flatten =
      Lines.text 10 lineText
        ((ServiceOp.publish e locals).nodeKeys.flatMap (List.replicate (netMods mods))) := by
  induction mods with
  | nil =>
    rw [show netMods ([] : List (Loaded RepoMod)) = 0 from rfl]
    simp [Lines.text]
  | cons m mods ih =>
    have ih := ih fun m' hm' => hconf m' (List.mem_cons_of_mem _ hm')
    have hm := hconf m List.mem_cons_self
    have htext : ((m.pure text_get (data m)).render ntf).text =
        rendered m.ggdmodviz_text_get e.key := call_text htarget hlen h.key_len _ _
    rw [List.map_cons, List.filter_cons]
    by_cases hid : (m.pure text_get (data m)).id = ntf.ntf_db
    · rw [if_pos (decide_eq_true hid)]
      by_cases hkey : m.ggdmodviz_text_get = .mod_1_net ∧ Accepted e.key
      · have hdb' : (e.db : ℤ) = GLOUGLOUD_MOD_NET_ID := by
          rw [← hdb, ← hid]
          show m.conf.id = _
          rw [hm, hkey.1]
          rfl
        rw [List.filterMap_cons]
        simp only [htext, rendered, if_pos hkey]
        rw [List.flatten_cons, ih]
        have hcount : netMods (m :: mods) = netMods mods + 1 :=
          List.countP_cons_of_pos (decide_eq_true hkey.1)
        simp only [ServiceOp.nodeKeys, if_pos (And.intro hdb' hkey.2), hcount,
          List.replicate_succ, Lines.text, List.flatMap_cons, List.flatMap_nil, List.append_nil]
      · rw [List.filterMap_cons]
        simp only [htext, rendered, if_neg hkey]
        rw [ih]
        by_cases hnet : m.ggdmodviz_text_get = .mod_1_net
        · have hno : ¬ ((e.db : ℤ) = GLOUGLOUD_MOD_NET_ID ∧ Accepted e.key) :=
            fun hc => hkey ⟨hnet, hc.2⟩
          simp only [ServiceOp.nodeKeys, if_neg hno, List.flatMap_nil]
        · rw [netMods, netMods, List.countP_cons_of_neg (by simpa using hnet)]
    · rw [if_neg (by simpa using hid), ih]
      by_cases hnet : m.ggdmodviz_text_get = .mod_1_net
      · have hno : ¬ ((e.db : ℤ) = GLOUGLOUD_MOD_NET_ID ∧ Accepted e.key) := by
          rintro ⟨hd, -⟩
          apply hid
          show m.conf.id = _
          rw [hdb, hd, hm, hnet]
          rfl
        simp only [ServiceOp.nodeKeys, if_neg hno, List.flatMap_nil]
      · rw [netMods, netMods, List.countP_cons_of_neg (by simpa using hnet)]

/-- The texts of a callback. -/
theorem texts_callback {internalId : ℤ} {mods : List (Loaded RepoMod)}
    (hconf : ∀ m ∈ mods, m.conf = ggdmodviz_init internalId m.ggdmodviz_text_get)
    (data : Loaded RepoMod → Mem) {op : ServiceOp} (h : op.Valid) :
    op.callback.texts (mods.map fun m => m.pure text_get (data m)) =
      Lines.text 10 lineText (op.nodeKeys.flatMap (List.replicate (netMods mods))) := by
  cases op with
  | accept ok => rfl
  | event bev => rfl
  | stop => rfl
  | publish e locals =>
    obtain ⟨p, hp, hret, hdb, htarget, hlen⟩ := parse_published h locals
    unfold ServiceOp.callback Op.texts
    simp only [hp]
    rw [if_neg (by rw [hret]; norm_num)]
    exact mods_texts hconf data h hdb htarget hlen locals

/-! ### A client -/

/-- The welcome is a line of no event. -/
theorem readBack_welcome (l : List UInt8) :
    Lines.readBack 10 readLine (MSG_WELCOME ++ l) = Lines.readBack 10 readLine l := by
  have hwelcome : MSG_WELCOME ++ l = ascii "Welcome to glougloud" ++ 10 :: l := by
    rw [show MSG_WELCOME = ascii "Welcome to glougloud" ++ [10] by decide, List.append_assoc]
    rfl
  have hnone : ((ascii "Welcome to glougloud").splitOn 10).filterMap readLine = [] := by decide
  rw [hwelcome, Lines.readBack, Lines.lines_append, List.filterMap_append, hnone]
  rfl

theorem nodeKeys_accepted {op : ServiceOp} {key : List UInt8} (h : key ∈ op.nodeKeys) :
    Accepted key := by
  cases op with
  | publish e locals =>
    simp only [ServiceOp.nodeKeys] at h
    split_ifs at h with hc
    · rw [List.mem_singleton.1 h]
      exact hc.2
    · simp at h
  | accept ok => simp [ServiceOp.nodeKeys] at h
  | event bev => simp [ServiceOp.nodeKeys] at h
  | stop => simp [ServiceOp.nodeKeys] at h

/-- The keys of the node events of a client's time. -/
def window (bev : ℕ) (post : List ServiceOp) : List (List UInt8) :=
  (post.takeWhile fun op => !op.callback.removes bev).flatMap ServiceOp.nodeKeys

/-- **From an event to a client.**  Whatever modules the directory has, a client is sent, from its
welcome up to its removal, the line of every node event once for every copy of the network module
that was linked; and the keys can be read back off what it is sent exactly if they are clean. -/
theorem end_to_end (internalId : ℤ) (dlopen : List UInt8 → Option RepoMod)
    (ents : List (List UInt8)) (data : Loaded RepoMod → Mem) {pre post : List ServiceOp}
    {es : List Ev} {srv : Server RepoMod Mem}
    (h : Run Step (Server.start (linkedMods internalId dlopen ents) data)
      (pre ++ .accept true :: post) es srv) :
    let bev := accepted (pre.map ServiceOp.callback)
    let keys := (window bev post).flatMap
      (List.replicate (netMods (linkedMods internalId dlopen ents)))
    written bev es = MSG_WELCOME ++ Lines.text 10 lineText keys ∧
      (Lines.readBack 10 readLine (written bev es) = keys ↔ ∀ key ∈ keys, Clean key) := by
  intro bev keys
  have hvalid : ∀ op ∈ pre ++ .accept true :: post, op.Valid :=
    h.forall_inputs ServiceOp.Valid fun _ _ _ _ hs => hs.2
  have hrun : Run (Server.Step text_get) (Server.start (linkedMods internalId dlopen ents) data)
      (pre.map ServiceOp.callback ++ .accept true :: post.map ServiceOp.callback) es srv := by
    have hmap : Run (Server.Step text_get) _ _ es srv :=
      h.map_inputs ServiceOp.callback fun _ _ _ _ hs => ⟨hs.1, steady hs.2⟩
    rwa [List.map_append, List.map_cons] at hmap
  have hpure := server_simulated hrun data
  rw [start_pure] at hpure
  have hwritten : written bev es = MSG_WELCOME ++ Lines.text 10 lineText keys := by
    rw [start_window hpure, List.takeWhile_map, List.flatMap_map]
    congr 1
    simp only [keys, window, Lines.text, List.flatMap_assoc]
    apply List.flatMap_congr
    intro op hop
    have hin := hvalid op (List.mem_append_right _ (List.mem_cons_of_mem _
      ((List.takeWhile_sublist _).subset hop)))
    rw [texts_callback (fun m hm => linked_conf hm) data hin, Lines.text, List.flatMap_assoc]
  refine ⟨hwritten, ?_⟩
  rw [hwritten, readBack_welcome]
  refine readBack_keys fun key hkey => ?_
  obtain ⟨key', hkey', hrep⟩ := List.mem_flatMap.1 hkey
  rw [List.eq_of_mem_replicate hrep]
  obtain ⟨op, -, hop⟩ := List.mem_flatMap.1 hkey'
  exact nodeKeys_accepted hop

/-- The two modules and a second copy of the network module: the line of a node is sent twice. -/
theorem end_to_end_two :
    let dlopen : List UInt8 → Option RepoMod := fun path =>
      if path = ascii "/modules//0.so" then some .mod_0_internal else some .mod_1_net
    ∃ es srv, Run Step (Server.start (linkedMods 0 dlopen
        [ascii "0.so", ascii "1.so", ascii ".", ascii "2.so"]) fun _ => .zeros)
        ([] ++ .accept true :: [.publish ⟨1, ascii "sadd", ascii "/n/a"⟩ ntf₀]) es srv ∧
      written 0 es = MSG_WELCOME ++ ascii "New node a\nNew node a\n" ∧
      Lines.readBack 10 readLine (written 0 es) = [ascii "/n/a", ascii "/n/a"] := by
  intro dlopen
  have hvalid : (ServiceOp.publish ⟨1, ascii "sadd", ascii "/n/a"⟩ ntf₀).Valid :=
    ⟨by decide, by decide, by decide, by decide, by decide⟩
  have hrun : ∃ es srv, Run Step (Server.start (linkedMods 0 dlopen
      [ascii "0.so", ascii "1.so", ascii ".", ascii "2.so"]) fun _ => .zeros)
      ([] ++ .accept true :: [.publish ⟨1, ascii "sadd", ascii "/n/a"⟩ ntf₀]) es srv := by
    obtain ⟨out, srv, hstep⟩ := exists_step _ hvalid ntf₀
    exact ⟨_, srv, Run.cons ⟨rfl, trivial⟩ (Run.single hstep)⟩
  obtain ⟨es, srv, hrun⟩ := hrun
  obtain ⟨hwritten, hread⟩ := end_to_end 0 dlopen _ _ hrun
  refine ⟨es, srv, hrun, hwritten.trans ?_, (hread.2 ?_).trans ?_⟩
  · decide
  · decide
  · decide

end Service
