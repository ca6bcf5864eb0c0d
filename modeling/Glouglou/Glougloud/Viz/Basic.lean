import Glouglou.Lib.Run
import Glouglou.Glougloud.Redis

/-!
# glougloud: the viz server

The callbacks of `viz.c` over `struct glougloud_viz`: TCP clients come and go, and every
notification of redis is rendered by the modules of its database and written to every client.

A `struct bufferevent` is named by the number of those created before it, and a client is told
apart by its own.

* `servtcp_cli_add`, `servtcp_cli_del`, `servtcp_cb_event`, `servtcp_cb_listener`,
  `servtcp_stop`, `redis_cb_notification`;
* `Op`, `exec`, `Step`: the callbacks as libevent invokes them;
* `accepted`, `written`, `Op.removes`, `Op.texts`: what a run did, for the statements about it.
-/

open CInt CString Redis Transducer

namespace Viz

def MSG_WELCOME : List UInt8 := ascii "Welcome to glougloud\n"

/-- The result of `ggdmodviz_text_get`: its return value and the memory `*s` points to. -/
structure Rendered where
  len : ℤ
  s : Mem

/-- The text rendered, unless the call failed. -/
def Rendered.text (r : Rendered) : Option (List UInt8) :=
  if r.len ≤ 0 then none else some (r.s.read 0 r.len.toNat)

/-- `struct ggdmodviz` with the `id` of its configuration. -/
structure Ggdmodviz where
  id : ℤ
  ggdmodviz_text_get : Option (List UInt8) → ℤ → Option (List UInt8) → ℤ → Rendered

/-- The module's answer to a notification. -/
def Ggdmodviz.render (m : Ggdmodviz) (ntf : Ntf) : Rendered :=
  m.ggdmodviz_text_get ntf.ntf_op ntf.ntf_op_len ntf.ntf_target ntf.ntf_target_len

/-- `enum ggdviz_cli_type` -/
inductive CliType
  | GGDVIZ_CLI_TCP
  | GGDVIZ_CLI_WS
  deriving DecidableEq

/-- `struct ggdviz_cli` -/
structure GgdvizCli where
  id : ℤ
  type : CliType
  bev : ℕ
  deriving DecidableEq

/-- `struct glougloud_viz` -/
structure GlouglouViz where
  mods : List Ggdmodviz
  clients : List GgdvizCli
  clients_count : ℤ
  clients_ids_counter : ℤ
  listener : Bool
  /-- how many bufferevents libevent has made -/
  bevs : ℕ

/-- The calls of libevent. -/
inductive Ev
  | bufferevent_write (bev : ℕ) (data : List UInt8)
  | bufferevent_free (bev : ℕ)
  | evconnlistener_free

/-- The server with its modules loaded and its listener open. -/
def start (mods : List Ggdmodviz) : GlouglouViz := ⟨mods, [], 0, 0, true, 0⟩

/-- `_servtcp_cli_add` -/
def servtcp_cli_add (viz : GlouglouViz) (bev : ℕ) : GlouglouViz × List Ev :=
  -- `clients_count` is not touched
  let cli : GgdvizCli := ⟨int32 viz.clients_ids_counter, .GGDVIZ_CLI_TCP, bev⟩
  ({ viz with
      clients_ids_counter := uint32 (viz.clients_ids_counter + 1)
      clients := cli :: viz.clients },
    [.bufferevent_write bev MSG_WELCOME])

/-- `_servtcp_cli_del` -/
def servtcp_cli_del (viz : GlouglouViz) (cli : GgdvizCli) : GlouglouViz × List Ev :=
  ({ viz with
      clients := viz.clients.erase cli
      clients_count := uint32 (viz.clients_count - 1) },
    [.bufferevent_free cli.bev])

/-- `_servtcp_cb_event`, with the client it was installed for. -/
def servtcp_cb_event (viz : GlouglouViz) (cli : GgdvizCli) : GlouglouViz × List Ev :=
  servtcp_cli_del viz cli

/-- `_servtcp_cb_listener`; `ok` says whether `bufferevent_socket_new` succeeds. -/
def servtcp_cb_listener (viz : GlouglouViz) (ok : Bool) : GlouglouViz × List Ev :=
  if ok then servtcp_cli_add { viz with bevs := viz.bevs + 1 } viz.bevs else (viz, [])

/-- The loop of `_servtcp_stop` over the clients that were linked when it began. -/
def stopLoop (viz : GlouglouViz) : List GgdvizCli → GlouglouViz × List Ev
  | [] => (viz, [])
  | cli :: clis =>
    if cli.type = .GGDVIZ_CLI_TCP then
      let r := servtcp_cli_del viz cli
      let r' := stopLoop r.1 clis
      (r'.1, r.2 ++ r'.2)
    else stopLoop viz clis

/-- `_servtcp_stop` -/
def servtcp_stop (viz : GlouglouViz) : GlouglouViz × List Ev :=
  let r := stopLoop { viz with listener := false } viz.clients
  (r.1, (if viz.listener then [.evconnlistener_free] else []) ++ r.2)

/-- What one module makes of a notification for one client. -/
def notifyClient (ntf : Ntf) (m : Ggdmodviz) (cli : GgdvizCli) : List Ev :=
  match cli.type with
  | .GGDVIZ_CLI_TCP =>
    if (m.render ntf).len ≤ 0 then []
    else [.bufferevent_write cli.bev ((m.render ntf).s.read 0 (m.render ntf).len.toNat)]
  | .GGDVIZ_CLI_WS => []

/-- `_redis_cb_notification`, with its local variables as they were. -/
def redis_cb_notification (viz : GlouglouViz) (reply : Option RedisReply) (locals : Ntf) :
    Except Fault (List Ev) :=
  match reply with
  | none => .ok []
  | some reply =>
    match redis_parse_keyspace_notification reply locals with
    | .error e => .error e
    | .ok p =>
      if p.ret < 4 then .ok []
      else
        .ok (viz.mods.flatMap fun m =>
          if m.id ≠ p.ntf.ntf_db then [] else viz.clients.flatMap (notifyClient p.ntf m))

/-! ### Runs -/

/-- The callbacks. -/
inductive Op
  | accept (ok : Bool)
  | event (bev : ℕ)
  | notification (reply : Option RedisReply) (locals : Ntf)
  | stop

/-- One callback.  An event comes from a bufferevent that was not freed, and a notification on
which the parser misbehaves has no outcome. -/
def exec (viz : GlouglouViz) : Op → Option (GlouglouViz × List Ev)
  | .accept ok => some (servtcp_cb_listener viz ok)
  | .event bev => (viz.clients.find? (·.bev = bev)).map (servtcp_cb_event viz)
  | .notification reply locals =>
    match redis_cb_notification viz reply locals with
    | .error _ => none
    | .ok ev => some (viz, ev)
  | .stop => some (servtcp_stop viz)

def Step (viz : GlouglouViz) (op : Op) (out : List Ev) (viz' : GlouglouViz) : Prop :=
  exec viz op = some (viz', out)

/-- The callback accepts a client. -/
def Op.accepts : Op → Bool
  | .accept ok => ok
  | _ => false

/-- How many clients were accepted. -/
def accepted (ops : List Op) : ℕ := ops.countP Op.accepts

/-- The bytes written to a bufferevent. -/
def written (bev : ℕ) (es : List Ev) : List UInt8 :=
  es.flatMap fun
    | .bufferevent_write b data => if b = bev then data else []
    | _ => []

/-- The callbacks that remove the client of a bufferevent. -/
def Op.removes (bev : ℕ) : Op → Bool
  | .event b => b = bev
  | .stop => true
  | _ => false

/-- The texts a notification should bring to every client: those of the modules of its
database, in their order, less the ones that failed. -/
def Op.texts (mods : List Ggdmodviz) : Op → List UInt8
  | .notification (some reply) locals =>
    match redis_parse_keyspace_notification reply locals with
    | .error _ => []
    | .ok p =>
      if p.ret < 4 then []
      else ((mods.filter (·.id = p.ntf.ntf_db)).filterMap fun m => (m.render p.ntf).text).flatten
  | _ => []

end Viz
