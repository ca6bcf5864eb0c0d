import Glouglou.Sendbuf.Basic

/-!
# libglouglou: the UDP server

The functions of `server.c` over `struct gg_server`, and the two functions of `utils.c` on
socket addresses.  Users are kept in a list; a `struct gg_user *` is the number of users
allocated before it, so that two users at different addresses of memory are never confused.

The server calls functions that the library does not define: `user_find`,
`ggpkt_receive_header`, `pkt_decode`, the owner's `handle_packet` and the send callback of the
users' buffers.  They are parameters (`Env`, `Net`), and what is assumed of them is said where
it is used.

* `addrcpy`, `addrcmp`;
* `user_send`, `user_add`, `user_del`, `pktLoop`, `cb_srv_receive`;
* `Step`: one call of `cb_srv_receive`.
-/

open CInt Libsendbuf Transducer

namespace Libglouglou

/-- `struct sockaddr_in` -/
structure SockaddrIn where
  sin_family : UInt16
  sin_port : UInt16
  sin_addr : UInt32
  /-- the eight bytes of padding -/
  sin_zero : UInt64
  deriving DecidableEq

/-- `addrcpy`: what `*dst` holds afterwards. -/
def addrcpy (dst src : SockaddrIn) : SockaddrIn :=
  { dst with sin_addr := src.sin_addr, sin_port := src.sin_port, sin_family := src.sin_family }

def addrcmp (a b : SockaddrIn) : ℤ :=
  if a.sin_addr ≠ b.sin_addr then -1
  else if a.sin_port ≠ b.sin_port then -2
  else if a.sin_family ≠ b.sin_family then -3
  else 0

/-- `enum gg_user_status` -/
inductive GgUserStatus
  | GG_USER_STATUS_CONNECTED
  | GG_USER_STATUS_AUTHENTICATED
  | GG_USER_STATUS_OK
  deriving DecidableEq

/-- The value of the enumerator. -/
def GgUserStatus.val : GgUserStatus → ℕ
  | .GG_USER_STATUS_CONNECTED => 0
  | .GG_USER_STATUS_AUTHENTICATED => 1
  | .GG_USER_STATUS_OK => 2

/-- `struct gg_user`; `ptr` stands for its address in memory. -/
structure GgUser where
  ptr : ℕ
  id : ℤ
  sock : ℤ
  status : GgUserStatus
  addr : SockaddrIn
  sbuf : Option Sendbuf

/-- `struct gg_server`, less what only the owner uses. -/
structure GgServer where
  sock : ℤ
  user_list : List GgUser
  user_count : ℤ
  user_id_count : ℤ
  /-- how many users were allocated -/
  ptrs : ℕ

variable {Pkt : Type}

/-- The code around the server: the functions that it calls and the library does not define. -/
structure Env (Pkt : Type) where
  PACKET_SNDBUF_MAX : ℤ
  /-- the `len` it leaves of a datagram received -/
  ggpkt_receive_header : List UInt8 → ℤ
  user_find : List GgUser → SockaddrIn → Option GgUser
  /-- a packet with what is left of the buffer and its length, or `NULL` -/
  pkt_decode : List UInt8 → ℤ → Option (Pkt × List UInt8 × ℤ)
  /-- `srv->handle_packet`, if installed: what it makes of the server when called for a user -/
  handle_packet : Option (GgServer → ℕ → Pkt → GgServer)

/-- What the rest of the world answers during one callback. -/
structure Net where
  calloc : Bool
  malloc : Option Mem
  sendto : SockaddrIn → List UInt8 → ℤ
  cb_usr_send : GgUser → SendFunc

/-- One invocation of `cb_srv_receive`: the result of `recvfrom`, `none` for an error, the
answers of the world, and how far the packet loop is followed. -/
structure Input where
  recvfrom : Option (SockaddrIn × List UInt8)
  net : Net
  fuel : ℕ

/-- The effects of a callback. -/
inductive Ev (Pkt : Type)
  | sendto (sock : ℤ) (addr : SockaddrIn) (data : List UInt8) (sent : ℤ)
  /-- an effect of the send buffer of the user at `addr` -/
  | sendbuf (addr : SockaddrIn) (e : Libsendbuf.Ev)
  /-- `handle_packet` was called for the user, whose status was this -/
  | handle_packet (usr : ℕ) (status : Option GgUserStatus) (pkt : Pkt)
  /-- a `HELLO_RES` was handed to `gg_server_send` -/
  | hello_res

/-- `user_send` -/
def user_send (net : Net) (usr : GgUser) (data : List UInt8) : ℤ × List (Ev Pkt) :=
  let sent := net.sendto usr.addr data
  (sent, [.sendto usr.sock usr.addr data sent])

/-- `LIST_REMOVE`, which writes through a null pointer when the entry was never inserted. -/
def LIST_REMOVE (l : List GgUser) (usr : GgUser) : Option (List GgUser) :=
  if l.any (·.ptr = usr.ptr) then some (l.eraseP (·.ptr = usr.ptr)) else none

/-- `user_del`; an `error` is a crash after the effects it carries. -/
def user_del (net : Net) (srv : GgServer) (usr : GgUser) :
    Except (List (Ev Pkt)) (GgServer × List (Ev Pkt)) :=
  let freed :=
    match usr.sbuf with
    | none => []
    | some sbuf => (sendbuf_free (net.cb_usr_send usr) sbuf).map (Ev.sendbuf usr.addr)
  let sent := (user_send net usr []).2
  match LIST_REMOVE srv.user_list usr with
  | none => .error (freed ++ sent)
  | some l =>
    .ok ({ srv with user_list := l, user_count := int32 (srv.user_count - 1) }, freed ++ sent)

/-- The user that `user_add` fills in, before it has a send buffer. -/
def newUser (srv : GgServer) (remote : SockaddrIn) : GgUser where
  ptr := srv.ptrs
  id := srv.user_id_count
  sock := srv.sock
  status := .GG_USER_STATUS_CONNECTED
  addr := addrcpy ⟨0, 0, 0, 0⟩ remote
  sbuf := none

/-- `user_add`; `none` is `NULL`. -/
def user_add (env : Env Pkt) (net : Net) (srv : GgServer) (remote : SockaddrIn) :
    Except (List (Ev Pkt)) (GgServer × Option GgUser × List (Ev Pkt)) :=
  let usr := newUser srv remote
  let srv :=
    { srv with
      ptrs := srv.ptrs + 1
      user_id_count := int32 (srv.user_id_count + 1)
      user_count := int32 (srv.user_count + 1) }
  match sendbuf_new net.calloc net.malloc env.PACKET_SNDBUF_MAX 200 with
  | (none, _) =>
    -- the error path unlinks a user that was never linked
    match user_del net srv usr with
    | .error ev => .error ev
    | .ok (srv, ev) => .ok (srv, none, ev)
  | (some sbuf, ev) =>
    let usr := { usr with sbuf := some sbuf }
    .ok ({ srv with user_list := usr :: srv.user_list }, some usr, ev.map (Ev.sendbuf usr.addr))

/-- The status of a user, if it still exists. -/
def GgServer.status (srv : GgServer) (usr : ℕ) : Option GgUserStatus :=
  (srv.user_list.find? (·.ptr = usr)).map (·.status)

/-- The loop that hands the packets of a datagram to `handle_packet`, followed for at most
`fuel` turns. -/
def pktLoop (env : Env Pkt) (handle_packet : GgServer → ℕ → Pkt → GgServer) (usr : ℕ) :
    ℕ → GgServer → List UInt8 → ℤ → GgServer × List (Ev Pkt)
  | 0, srv, _, _ => (srv, [])
  | fuel + 1, srv, buf_p, buf_len =>
    if 0 < buf_len then
      match env.pkt_decode buf_p buf_len with
      | none => (srv, [])
      | some (pkt, buf_p, buf_len) =>
        let r := pktLoop env handle_packet usr fuel (handle_packet srv usr pkt) buf_p buf_len
        (r.1, .handle_packet usr (srv.status usr) pkt :: r.2)
    else (srv, [])

/-- `cb_srv_receive`; the loop is followed for at least one turn.  A `NULL` from `user_add` is
dereferenced by `user_send`. -/
def cb_srv_receive (env : Env Pkt) (srv : GgServer) (i : Input) :
    Except (List (Ev Pkt)) (GgServer × List (Ev Pkt)) :=
  match i.recvfrom with
  | none => .ok (srv, [])
  | some (remote, buf) =>
    let len := env.ggpkt_receive_header buf
    match env.user_find srv.user_list remote with
    | none =>
      match user_add env i.net srv remote with
      | .error ev => .error ev
      | .ok (_, none, ev) => .error ev
      | .ok (srv, some usr, ev) => .ok (srv, ev ++ (user_send i.net usr []).2 ++ [.hello_res])
    | some usr =>
      if len = 0 then user_del i.net srv usr
      else
        match env.handle_packet with
        | none => .ok (srv, [.hello_res])
        | some handle_packet =>
          let r := pktLoop env handle_packet usr.ptr (i.fuel + 1) srv buf len
          .ok (r.1, r.2 ++ [.hello_res])

/-- The server as `gg_server_start` leaves it; nothing ever sets `sock`. -/
def start : GgServer := ⟨0, [], 0, 0, 0⟩

/-- A callback that runs to its end. -/
def Step (env : Env Pkt) (srv : GgServer) (i : Input) (out : List (Ev Pkt)) (srv' : GgServer) :
    Prop :=
  cb_srv_receive env srv i = .ok (srv', out)

end Libglouglou
