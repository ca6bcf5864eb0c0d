import Glouglou.Lib.CString
import Glouglou.Lib.Words

/-!
# libglouglou: packets of the internal module

The constructors and the decoder of `libglouglou_mod_0_internal.c` on a little-endian machine.
A `struct ggpkt_mod_0_internal` is 68 bytes of memory, and its members are `Field`s of it: the
structures of the union are packed and start at offset 5.

* `NEWPKT` and the seven constructors, whose result says what the returned pointer is (`Ret`);
* `ggpkt_mod_0_internal_decode`, with what it loads from the received buffer and copies to the
  arrays of its static structure.

Three names of the source do not exist in the structure they are used with.  `random_ggd` of
`hello` and `len` of `auth` are the fields of the arm that the packet is about; for `random_ggd`
of `auth_res`, which no arm of the packet has, the offset in the union is a parameter `g`.
-/

open CInt CString Words

namespace Ggpkt

/-- `enum ggpkt_mod_0_internal_type` -/
inductive MsgType
  | HELLO
  | HELLO_RES
  | AUTH
  | AUTH_RES
  | PING
  | PING_RES
  | NOTICE
  deriving DecidableEq

/-- The value of the enumerator. -/
def MsgType.code : MsgType → ℕ
  | HELLO => 0x00
  | HELLO_RES => 0x01
  | AUTH => 0x02
  | AUTH_RES => 0x03
  | PING => 0x10
  | PING_RES => 0x11
  | NOTICE => 0x20

/-- The case of a `switch` over a type. -/
def MsgType.ofCode : ℕ → Option MsgType
  | 0x00 => some HELLO
  | 0x01 => some HELLO_RES
  | 0x02 => some AUTH
  | 0x03 => some AUTH_RES
  | 0x10 => some PING
  | 0x11 => some PING_RES
  | 0x20 => some NOTICE
  | _ => none

@[simp] theorem MsgType.ofCode_code (t : MsgType) : ofCode t.code = some t := by
  cases t <;> rfl

def GGPKT_ARG_MAX : ℕ := 60

def GLOUGLOU_PASS_SIZE_MAX : ℕ := 16

def GGPKT_MOD_0_INTERNAL_ID : ℕ := 0

def GGPKT_MOD_0_INTERNAL_VERSION : ℕ := 1

/-! ### `struct ggpkt_mod_0_internal` -/

/-- `sizeof(struct ggpkt_mod_0_internal)`, with one byte of padding at the end. -/
def sizeof : ℕ := 68

def header_module_id : Field := ⟨0, 1⟩
def header_module_version : Field := ⟨1, 1⟩
def type : Field := ⟨4, 1⟩
def hello_random_probe : Field := ⟨5, 4⟩
def hello_res_random_ggd : Field := ⟨5, 4⟩
def auth_probe_id : Field := ⟨5, 2⟩
def auth_probe_password_len : Field := ⟨7, 1⟩
/-- the offset of `probe_password` -/
def auth_probe_password : ℤ := 8
def auth_random_probe : Field := ⟨24, 4⟩
def auth_random_ggd : Field := ⟨28, 4⟩
def auth_res_status : Field := ⟨5, 1⟩
def auth_res_random_ggd (g : ℕ) : Field := ⟨5 + g, 4⟩
def notice_len : Field := ⟨5, 2⟩
/-- the offset of `msg` -/
def notice_msg : ℤ := 7
def ping_random : Field := ⟨5, 4⟩
def ping_res_random_res : Field := ⟨5, 4⟩

/-! ### Byte order -/

def htonl (x : ℤ) : ℕ := swap 4 (uint32 x).toNat
def htons (x : ℤ) : ℕ := swap 2 (uint16 x)
def ntohl (x : ℕ) : ℕ := swap 4 x
def ntohs (x : ℕ) : ℕ := swap 2 x

/-! ### Constructors -/

/-- A constructed body, and the copies of strings into its arrays. -/
structure Built where
  body : Mem
  copies : List Memcpy

/-- What a constructor returns as its `struct ggpkt *`. -/
inductive Ret
  /-- the packet that `ggpkt_new` made around the body -/
  | pkt (built : Built)
  /-- the body itself -/
  | body (built : Built)
  /-- `-1` -/
  | error

/-- The body behind the pointer, whatever the pointer is. -/
def Ret.built : Ret → Option Built
  | .pkt built | .body built => some built
  | .error => none

def ggpkt_header_encode (header : Mem) (module_id module_version : ℕ) : Mem :=
  header_module_version.set (header_module_id.set header module_id) module_version

/-- `NEWPKT`: the body, in memory that `xcalloc` cleared. -/
def NEWPKT (heap : Mem) (newpkt_type : MsgType) : Mem :=
  ggpkt_header_encode (type.set (heap.write 0 (List.replicate sizeof 0)) newpkt_type.code)
    GGPKT_MOD_0_INTERNAL_ID GGPKT_MOD_0_INTERNAL_VERSION

/-- `memcpy(dst, s, len+1)` for a string of which `len` was taken; a copy that would go past
the terminator is only recorded. -/
def copyString (m : Mem) (off : ℤ) (cap : ℕ) (s : CStr) (len : ℤ) : Built where
  body := m.write off ((s.1 ++ [0]).take (size_t (len + 1)))
  copies := [⟨cap, size_t (len + 1)⟩]

def ggpkt_mod_0_internal_hello (heap : Mem) (rand : ℤ) : Ret :=
  .pkt ⟨hello_random_probe.set (NEWPKT heap .HELLO) (htonl rand), []⟩

def ggpkt_mod_0_internal_hello_res (heap : Mem) (rand : ℤ) : Ret :=
  .pkt ⟨hello_res_random_ggd.set (NEWPKT heap .HELLO_RES) (htonl rand), []⟩

/-- The randoms go where `hello` has `random_probe`, over the id, the length and the first
byte of the password, and where `auth` has `random_ggd`. -/
def ggpkt_mod_0_internal_hello_auth (heap : Mem) (probe_id : ℤ) (pass : CStr)
    (random_probe random_ggd : ℤ) : Ret :=
  let len := int32 pass.1.length
  if GGPKT_ARG_MAX < len then .error
  else
    let body := auth_probe_id.set (NEWPKT heap .AUTH) (htons probe_id)
    let body := auth_probe_password_len.set body (uint8 len)
    let copied := copyString body auth_probe_password GLOUGLOU_PASS_SIZE_MAX pass len
    let body := hello_random_probe.set copied.body (htonl random_probe)
    .body ⟨auth_random_ggd.set body (htonl random_ggd), copied.copies⟩

def ggpkt_mod_0_internal_auth_res (heap : Mem) (status : ℤ) : Ret :=
  .pkt ⟨auth_res_status.set (NEWPKT heap .AUTH_RES) (uint8 status), []⟩

/-- The length is stored in host order. -/
def ggpkt_mod_0_internal_notice (heap : Mem) (msg : CStr) : Ret :=
  let len := int32 msg.1.length
  if GGPKT_ARG_MAX < len then .error
  else
    let body := notice_len.set (NEWPKT heap .NOTICE) (uint16 len)
    .pkt (copyString body notice_msg GGPKT_ARG_MAX msg len)

def ggpkt_mod_0_internal_ping (heap : Mem) (rand : ℤ) : Ret :=
  .pkt ⟨ping_random.set (NEWPKT heap .PING) (uint32 rand).toNat, []⟩

def ggpkt_mod_0_internal_ping_res (heap : Mem) (random_res : ℤ) : Ret :=
  .pkt ⟨ping_res_random_res.set (NEWPKT heap .PING_RES) (uint32 random_res).toNat, []⟩

/-! ### Decoding -/

/-- The outcome of decoding: whether the pointer is `&body` or `NULL`, what `body` then holds,
what was loaded from the received buffer, and what was copied to the arrays of `body`. -/
structure Decoded where
  ret : Bool
  body : Mem
  reads : List Field
  copies : List Memcpy

/-- The arms with one word: it is loaded from network order. -/
def decodeWord (f : Field) (bufbody body : Mem) : Decoded where
  ret := true
  body := f.set body (ntohl (f.get bufbody))
  reads := [type, f]
  copies := []

def decodeAuth (bufbody body : Mem) : Decoded :=
  let body := auth_probe_id.set body (ntohs (auth_probe_id.get bufbody))
  let len := auth_probe_password_len.get bufbody
  let body := auth_probe_password_len.set body len
  let body := body.write auth_probe_password (bufbody.read auth_probe_password len)
  let body := hello_random_probe.set body (ntohl (auth_random_probe.get bufbody))
  { ret := true
    body := auth_random_ggd.set body (ntohl (auth_random_ggd.get bufbody))
    reads := [type, auth_probe_id, auth_probe_password_len, ⟨auth_probe_password, len⟩,
      auth_random_probe, auth_random_ggd]
    copies := [⟨GLOUGLOU_PASS_SIZE_MAX, len⟩] }

def decodeNotice (bufbody body : Mem) : Decoded :=
  let len := ntohs (notice_len.get bufbody)
  let body := notice_len.set body len
  { ret := true
    body := body.write notice_msg (bufbody.read notice_msg len)
    reads := [type, notice_len, ⟨notice_msg, len⟩]
    copies := [⟨GGPKT_ARG_MAX, len⟩] }

/-- `ggpkt_mod_0_internal_decode` of the buffer at `bufbody`, with the static `body` as the
previous calls left it. -/
def ggpkt_mod_0_internal_decode (g : ℕ) (bufbody body : Mem) : Decoded :=
  let t := type.get bufbody
  let body := type.set body t
  match MsgType.ofCode t with
  | some .HELLO => decodeWord hello_random_probe bufbody body
  | some .HELLO_RES => decodeWord hello_res_random_ggd bufbody body
  | some .AUTH => decodeAuth bufbody body
  | some .AUTH_RES => decodeWord (auth_res_random_ggd g) bufbody body
  | some .NOTICE => decodeNotice bufbody body
  | some .PING => decodeWord ping_random bufbody body
  | some .PING_RES => decodeWord ping_res_random_res bufbody body
  | none => ⟨false, body, [type], []⟩

end Ggpkt
