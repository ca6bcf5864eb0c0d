import Glouglou.Lib.Words
import Glouglou.Websock.Utf

/-!
# libwebsock: receiving

The receiver of `websock.c`, `frames.c` and `default_callbacks.c`: the bytes of a connection are
stored in the current frame one by one, the header is read in steps as far as its bytes have
come, and a frame that is complete answers a control frame, is linked to the frames of its
message, or hands the message to the application.

* `libwebsock_read_header`, `libwebsock_default_control_callback`, `libwebsock_dispatch_message`,
  `libwebsock_frame_act`, `libwebsock_fail_connection`;
* `recvByte`: one turn of the loop of `libwebsock_handle_recv`;
* `libwebsock_handle_recv`, on the input that has come.

An access outside `rawdata` ends the model with a `Fault`; allocations succeed.
-/

open CString

namespace Libwebsock

def FRAME_CHUNK_LENGTH : ℕ := 1024
def MASK_LENGTH : ℕ := 4

def WS_OPCODE_CONTINUE : ℕ := 0x0
def WS_OPCODE_TEXT : ℕ := 0x1
def WS_OPCODE_BINARY : ℕ := 0x2
def WS_OPCODE_CLOSE : ℕ := 0x8
def WS_OPCODE_PING : ℕ := 0x9
def WS_OPCODE_PONG : ℕ := 0xa

def WS_CLOSE_NORMAL : ℕ := 1000
def WS_CLOSE_PROTOCOL_ERROR : ℕ := 1002
def WS_CLOSE_RESERVED : ℕ := 1004
def WS_CLOSE_NO_CODE : ℕ := 1005
def WS_CLOSE_DIRTY : ℕ := 1006
def WS_CLOSE_WRONG_TYPE : ℕ := 1007

/-- Conversion to `unsigned int`. -/
def u32 (n : ℕ) : ℕ := n % 2 ^ 32

/-- Conversion to `unsigned long long`. -/
def u64 (n : ℕ) : ℕ := n % 2 ^ 64

/-- `enum WS_FRAME_STATE` -/
inductive FrameState
  | sw_start
  | sw_got_two
  | sw_got_short_len
  | sw_got_full_len
  | sw_loaded_mask
  deriving DecidableEq

/-- `libwebsock_frame`, less its links -/
structure Frame where
  fin : ℕ
  opcode : ℕ
  mask_offset : ℕ
  payload_offset : ℕ
  rawdata_idx : ℕ
  rawdata_sz : ℕ
  payload_len_short : ℕ
  payload_len : ℕ
  rawdata : Mem
  mask : List UInt8
  state : FrameState

/-- `libwebsock_close_info` -/
structure CloseInfo where
  code : ℕ
  reason : List UInt8

/-- `libwebsock_client_state`, as far as receiving goes: the flags that it looks at, the current
frame and the chain of its `prev_frame`, the nearest first. -/
structure ClientState where
  STATE_SHOULD_CLOSE : Bool
  STATE_SENT_CLOSE_FRAME : Bool
  STATE_RECEIVING_FRAGMENT : Bool
  current_frame : Option Frame
  prev_frames : List Frame
  close_info : Option CloseInfo

/-- What the receiver does to the outside: output, messages to the application, and the end of
its own callback. -/
inductive Ev
  | evbuffer_add (data : List UInt8)
  | onmessage (opcode payload_len : ℕ) (payload : List UInt8)
  | bufferevent_setcb

/-- An access outside `rawdata`. -/
inductive Fault
  | rawdata
  deriving DecidableEq

/-- The result of a function that may access `rawdata` outside. -/
abbrev Result := Except Fault (ClientState × List Ev)

/-- A word in network order. -/
def be (bs : List UInt8) : ℕ := Words.swap bs.length (Words.ofLe bs)

/-- The bytes of a word in network order. -/
def toBe (k x : ℕ) : List UInt8 := Words.le k (Words.swap k x)

/-- The frame that `libwebsock_handle_recv` starts with: zeros, and the length `-1`. -/
def firstFrame (rawdata : Mem) : Frame :=
  ⟨0, 0, 0, 0, 0, FRAME_CHUNK_LENGTH, 0, 2 ^ 64 - 1, rawdata, [0, 0, 0, 0], .sw_start⟩

/-- The frame linked to a fragment: zeros. -/
def nextFrame (rawdata : Mem) : Frame :=
  ⟨0, 0, 0, 0, 0, FRAME_CHUNK_LENGTH, 0, 0, rawdata, [0, 0, 0, 0], .sw_start⟩

/-- `libwebsock_read_header`: its result and the frame. -/
def libwebsock_read_header (frame : Frame) : ℤ × Frame :=
  match frame.state with
  | .sw_start =>
    if frame.rawdata_idx < 2 then (0, frame) else (0, { frame with state := .sw_got_two })
  | .sw_got_two =>
    -- some reserved bits were set
    if (frame.rawdata 0).toNat &&& 0x70 ≠ 0 then (-1, frame)
    else if (frame.rawdata 1).toNat &&& 0x80 ≠ 0x80 then (-1, frame)
    else
      (0, { frame with
        mask_offset := 2
        fin := if (frame.rawdata 0).toNat &&& 0x80 = 0x80 then 1 else 0
        opcode := (frame.rawdata 0).toNat &&& 0xf
        payload_len_short := (frame.rawdata 1).toNat &&& 0x7f
        state := .sw_got_short_len })
  | .sw_got_short_len =>
    if frame.payload_len_short = 126 then
      if frame.rawdata_idx < 4 then (0, frame)
      else
        (0, { frame with
          mask_offset := u32 (frame.mask_offset + 2)
          payload_offset := u32 (u32 (frame.mask_offset + 2) + MASK_LENGTH)
          payload_len := be (frame.rawdata.read 2 2)
          state := .sw_got_full_len })
    else if frame.payload_len_short = 127 then
      if frame.rawdata_idx < 10 then (0, frame)
      else
        (0, { frame with
          mask_offset := u32 (frame.mask_offset + 8)
          payload_offset := u32 (u32 (frame.mask_offset + 8) + MASK_LENGTH)
          payload_len := be (frame.rawdata.read 2 8)
          state := .sw_got_full_len })
    else
      (0, { frame with
        payload_len := frame.payload_len_short
        payload_offset := u32 (frame.mask_offset + MASK_LENGTH)
        state := .sw_got_full_len })
  | .sw_got_full_len =>
    if frame.rawdata_idx < u32 (frame.mask_offset + MASK_LENGTH) then (0, frame)
    else
      (1, { frame with
        mask := frame.rawdata.read frame.mask_offset MASK_LENGTH
        state := .sw_loaded_mask })
  | .sw_loaded_mask => (0, frame)

/-- `libwebsock_fail_connection` -/
def libwebsock_fail_connection (state : ClientState) (close_code : ℕ) : ClientState × List Ev :=
  ({ state with STATE_SHOULD_CLOSE := true },
    [.evbuffer_add ([0x88, 0x02] ++ toBe 2 close_code)])

/-- A byte of the payload less its mask. -/
def unmaskByte (frame : Frame) (i : ℕ) : UInt8 :=
  frame.rawdata (frame.payload_offset + i) ^^^ frame.mask.getD (i % 4) 0

/-- The body of the loop that takes the mask off and moves the payload four bytes to the
front. -/
def demaskByte (frame : Frame) (i : ℕ) : Frame :=
  { frame with
    rawdata := frame.rawdata.write (frame.payload_offset + i - 4) [unmaskByte frame i] }

/-- The last `n` turns of that loop, from byte `i` on. -/
def demaskLoop (frame : Frame) (i : ℕ) : ℕ → Mem
  | 0 => frame.rawdata
  | n + 1 => demaskLoop (demaskByte frame i) (i + 1) n

/-- `libwebsock_populate_close_info_from_frame` -/
def libwebsock_populate_close_info_from_frame (frame : Frame) : Option CloseInfo :=
  if frame.payload_len < 2 then none
  else
    let at_most := min (frame.payload_len - 2) 124
    some ⟨be (frame.rawdata.read frame.payload_offset 2),
      frame.rawdata.read (frame.payload_offset + 2) at_most ++ List.replicate (124 - at_most) 0⟩

/-- The codes that an endpoint must not send. -/
def badCode (code : ℕ) : Prop :=
  code < WS_CLOSE_NORMAL ∨ code = WS_CLOSE_RESERVED ∨ code = WS_CLOSE_NO_CODE ∨
    code = WS_CLOSE_DIRTY ∨ (1011 < code ∧ code < 3000)

instance : DecidablePred badCode := fun _ => inferInstanceAs (Decidable (_ ∨ _))

/-- The code that the control callback puts in the place of the one it was sent. -/
def closeCode : Option CloseInfo → Option ℕ
  | none => none
  | some info =>
    if badCode info.code then some WS_CLOSE_PROTOCOL_ERROR
    else if validate_utf8_sequence info.reason 0 = false then some WS_CLOSE_WRONG_TYPE
    else none

/-- The frame with other bytes in its buffer. -/
def Frame.setRawdata (frame : Frame) (rawdata : Mem) : Frame := { frame with rawdata := rawdata }

/-- The bytes of a frame without a mask, as they are sent back. -/
def Frame.echo (frame : Frame) : List UInt8 :=
  frame.rawdata.read 0 (frame.payload_offset + frame.payload_len)

/-- The frame with its payload moved and its mask bit stripped, as the control callback makes it
one of the server. -/
def servify (frame : Frame) : Frame :=
  let moved := demaskLoop frame 0 frame.payload_len
  { frame with
    rawdata := moved.write 1 [moved 1 &&& 0x7f]
    -- unsigned
    payload_offset := (CInt.uint32 (frame.payload_offset - 4)).toNat }

/-- `libwebsock_default_control_callback`, on the current frame -/
def libwebsock_default_control_callback (state : ClientState) (frame : Frame) :
    Except Fault (ClientState × Frame × List Ev) :=
  if 125 < frame.payload_len then
    let r := libwebsock_fail_connection state WS_CLOSE_PROTOCOL_ERROR
    .ok (r.1, frame, r.2)
  else if 0 < frame.payload_len ∧ (frame.payload_offset < 4 ∨
      frame.rawdata_sz < frame.payload_offset + frame.payload_len) then .error .rawdata
  else
    let frame := servify frame
    if frame.opcode = WS_OPCODE_CLOSE then
      let info := match state.close_info with
        | none => libwebsock_populate_close_info_from_frame frame
        | some info => some info
      if (state.close_info.isNone ∧ 2 ≤ frame.payload_len ∨ state.STATE_SENT_CLOSE_FRAME = false) ∧
          frame.rawdata_sz < frame.payload_offset + frame.payload_len then .error .rawdata
      else if (closeCode info).isSome ∧ frame.rawdata_sz < frame.payload_offset + 2 then
        .error .rawdata
      else
        let frame := match closeCode info with
          | none => frame
          | some code =>
            frame.setRawdata (frame.rawdata.write frame.payload_offset (toBe 2 code))
        .ok ({ state with STATE_SHOULD_CLOSE := true, close_info := info }, frame,
          (if state.STATE_SENT_CLOSE_FRAME then [] else [.evbuffer_add frame.echo]) ++
            [.bufferevent_setcb])
    else if frame.opcode = WS_OPCODE_PING then
      let frame := frame.setRawdata (frame.rawdata.write 0 [0x8a])
      if frame.rawdata_sz < frame.payload_offset + frame.payload_len then .error .rawdata
      else .ok (state, frame, [.evbuffer_add frame.echo])
    else if frame.opcode = WS_OPCODE_PONG then .ok (state, frame, [])
    else
      let r := libwebsock_fail_connection state WS_CLOSE_PROTOCOL_ERROR
      .ok (r.1, frame, r.2)

/-- `libwebsock_handle_control_frame`: the frame is reset by two of its members. -/
def libwebsock_handle_control_frame (state : ClientState) (ctl_frame : Frame) : Result :=
  match libwebsock_default_control_callback state ctl_frame with
  | .error e => .error e
  | .ok (state, frame, evs) =>
    .ok ({ state with current_frame := some { frame with state := .sw_start, rawdata_idx := 0 } },
      evs)

/-- The payload of a frame less its mask. -/
def Frame.unmask (frame : Frame) : Except Fault (List UInt8) :=
  if 0 < frame.payload_len ∧ frame.rawdata_sz < frame.payload_offset + frame.payload_len then
    .error .rawdata
  else .ok ((List.range frame.payload_len).map (unmaskByte frame))

/-- The loop that collects the payloads of a message, from its first frame on. -/
def collect : List Frame → Except Fault (List UInt8)
  | [] => .ok []
  | frame :: frames =>
    match frame.unmask with
    | .error e => .error e
    | .ok payload =>
      match collect frames with
      | .error e => .error e
      | .ok rest => .ok (payload ++ rest)

/-- `libwebsock_dispatch_message`, and the current frame is dropped as `libwebsock_frame_act`
does after it. -/
def libwebsock_dispatch_message (state : ClientState) (current : Frame) : Result :=
  let frames := state.prev_frames.reverse ++ [current]
  let message_opcode := (frames.headD current).opcode
  let message_payload_len := u64 (frames.map (·.payload_len)).sum
  match collect frames with
  | .error e => .error e
  | .ok message_payload =>
    let state := { state with current_frame := none, prev_frames := [] }
    if message_opcode = WS_OPCODE_TEXT ∧ validate_utf8_sequence message_payload 0 = false then
      .ok (libwebsock_fail_connection state WS_CLOSE_WRONG_TYPE)
    else .ok (state, [.onmessage message_opcode message_payload_len message_payload])

/-- `libwebsock_frame_act` -/
def libwebsock_frame_act (state : ClientState) (frame : Frame) : Result :=
  if frame.opcode = WS_OPCODE_CLOSE ∨ frame.opcode = WS_OPCODE_PING ∨
      frame.opcode = WS_OPCODE_PONG then libwebsock_handle_control_frame state frame
  else if frame.opcode = WS_OPCODE_TEXT ∨ frame.opcode = WS_OPCODE_BINARY ∨
      frame.opcode = WS_OPCODE_CONTINUE then libwebsock_dispatch_message state frame
  else .ok (libwebsock_fail_connection state WS_CLOSE_PROTOCOL_ERROR)

/-- A new frame is linked to the current one. -/
def linkFrame (state : ClientState) (current : Frame) (rawdata : Mem) : ClientState :=
  { state with
    current_frame := some (nextFrame rawdata)
    prev_frames := current :: state.prev_frames }

/-- What happens to a frame that is complete. -/
def completeFrame (state : ClientState) (current : Frame) (rawdata : Mem) : Result :=
  let fail := libwebsock_fail_connection state WS_CLOSE_PROTOCOL_ERROR
  if state.STATE_RECEIVING_FRAGMENT then
    if current.fin = 1 then
      if current.opcode &&& 0x8 = 0 then
        -- non-ctrl and has opcode in the middle of fragment
        if current.opcode ≠ 0 then .ok fail
        else libwebsock_frame_act { state with STATE_RECEIVING_FRAGMENT := false } current
      else libwebsock_frame_act state current
    else if current.opcode ≠ 0 then .ok fail
    else .ok (linkFrame state current rawdata, [])
  else if current.fin = 1 then
    if current.opcode = 0 then .ok fail else libwebsock_frame_act state current
  else if current.opcode &&& 0x8 ≠ 0 then .ok fail
  else if current.opcode = 0 then .ok fail
  else .ok ({ linkFrame state current rawdata with STATE_RECEIVING_FRAGMENT := true }, [])

/-- A byte is stored in the frame, which is doubled when it is full. -/
def Frame.push (frame : Frame) (b : UInt8) : Except Fault Frame :=
  let rawdata_sz :=
    if frame.rawdata_sz ≤ frame.rawdata_idx then u32 (frame.rawdata_sz + frame.rawdata_sz)
    else frame.rawdata_sz
  if rawdata_sz ≤ frame.rawdata_idx then .error .rawdata
  else
    .ok { frame with
      rawdata_sz := rawdata_sz
      rawdata := frame.rawdata.write frame.rawdata_idx [b]
      rawdata_idx := u32 (frame.rawdata_idx + 1) }

/-- One turn of the inner loop of `libwebsock_handle_recv`, with what `malloc` returns for a new
frame: the state, what was done, and whether the loop is left. -/
def recvByte (state : ClientState) (b : UInt8) (rawdata : Mem) :
    Except Fault (ClientState × List Ev × Bool) :=
  match (state.current_frame.getD (firstFrame rawdata)).push b with
  | .error e => .error e
  | .ok current =>
    let header :=
      if current.state = .sw_loaded_mask then (1, current) else libwebsock_read_header current
    let current := header.2
    let state := { state with current_frame := some current }
    let failed :=
      if header.1 = -1 then libwebsock_fail_connection state WS_CLOSE_PROTOCOL_ERROR
      else (state, [])
    if header.1 = 0 then .ok (state, [], false)
    else if current.rawdata_idx < u64 (current.payload_offset + current.payload_len) then
      .ok (failed.1, failed.2, false)
    else
      match completeFrame failed.1 current rawdata with
      | .error e => .error e
      | .ok r => .ok (r.1, failed.2 ++ r.2, r.1.STATE_SHOULD_CLOSE)

/-- The inner loop over the bytes of `buf`; `malloc` is what it finds at the byte `n` of the
call. -/
def recvLoop (malloc : ℕ → Mem) (n : ℕ) (state : ClientState) : List UInt8 → Result
  | [] => .ok (state, [])
  | b :: buf =>
    match recvByte state b (malloc n) with
    | .error e => .error e
    | .ok (state, evs, true) => .ok (state, evs)
    | .ok (state, evs, false) =>
      match recvLoop malloc (n + 1) state buf with
      | .error e => .error e
      | .ok r => .ok (r.1, evs ++ r.2)

/-- `sizeof(buf)` -/
def bufSize : ℕ := 1024

/-- `libwebsock_handle_recv`, on the input that has come. -/
def libwebsock_handle_recv (malloc : ℕ → Mem) (n : ℕ) (state : ClientState)
    (input : List UInt8) : Result :=
  if _h : input = [] then .ok (state, [])
  else
    match recvLoop malloc n state (input.take bufSize) with
    | .error e => .error e
    | .ok r =>
      match libwebsock_handle_recv malloc (n + bufSize) r.1 (input.drop bufSize) with
      | .error e => .error e
      | .ok r' => .ok (r'.1, r.2 ++ r'.2)
termination_by input.length
decreasing_by
  have hpos := List.length_pos_iff.2 _h
  rw [List.length_drop]
  unfold bufSize
  omega

end Libwebsock
