import Glouglou.Websock.Header

/-!
# libwebsock: messages

What the receiver is for, in terms of frames and messages: `Msgs` is the state of a message
machine that takes a whole frame at a time, `Msgs.accept` what it does with it.  The control
callback does the same on a control frame (`control_callback`), and what it leaves of the frame
(`Stale`) is there when the next one comes.
-/

open CString

namespace Libwebsock

/-- The opcode and the data of the message that is received in fragments, and whether the
connection is to be closed. -/
structure Msgs where
  pending : Option (ℕ × List UInt8)
  closed : Bool

/-- The close frame that is sent to a peer at fault. -/
def failFrame (code : ℕ) : Ev := .evbuffer_add ([0x88, 0x02] ++ toBe 2 code)

/-- A frame sent back without its mask. -/
def sentBack (first : UInt8) (x payload : List UInt8) : List UInt8 :=
  first :: (x.getD 1 0 &&& 0x7f) :: ((x.drop 2).take (extLen x) ++ payload)

/-- The code and the reason of a close frame. -/
def closeInfoOf (payload : List UInt8) : Option CloseInfo :=
  if payload.length < 2 then none
  else some ⟨be (payload.take 2), payload.drop 2 ++ List.replicate (126 - payload.length) 0⟩

/-- The payload of the close frame that answers one. -/
def closeBack (payload : List UInt8) : List UInt8 :=
  match closeCode (closeInfoOf payload) with
  | none => payload
  | some code => toBe 2 code ++ payload.drop 2

variable (sent : Bool)

/-- A control frame; `sent` says that a close frame was sent before. -/
def Msgs.control (a : Msgs) (x : List UInt8) : Msgs × List Ev :=
  if 125 < lenOf x then ({ a with closed := true }, [failFrame WS_CLOSE_PROTOCOL_ERROR])
  else if opcodeOf x = WS_OPCODE_CLOSE then
    ({ a with closed := true },
      (if sent then [] else
        [.evbuffer_add (sentBack (x.getD 0 0) x (closeBack (payloadOf x)))]) ++
        [.bufferevent_setcb])
  else if opcodeOf x = WS_OPCODE_PING then
    (a, [.evbuffer_add (sentBack 0x8a x (payloadOf x))])
  else (a, [])

/-- A message that is complete. -/
def deliver (opcode : ℕ) (data : List UInt8) : Msgs × List Ev :=
  if opcode = WS_OPCODE_TEXT ∧ validate_utf8_sequence data 0 = false then
    (⟨none, true⟩, [failFrame WS_CLOSE_WRONG_TYPE])
  else (⟨none, false⟩, [.onmessage opcode (u64 data.length) data])

/-- The opcodes of the control frames. -/
def IsControl (opcode : ℕ) : Prop :=
  opcode = WS_OPCODE_CLOSE ∨ opcode = WS_OPCODE_PING ∨ opcode = WS_OPCODE_PONG

instance : DecidablePred IsControl := fun _ => inferInstanceAs (Decidable (_ ∨ _))

/-- What the machine does with a frame. -/
def Msgs.accept (a : Msgs) (x : List UInt8) : Msgs × List Ev :=
  let fail : Msgs × List Ev := ({ a with closed := true }, [failFrame WS_CLOSE_PROTOCOL_ERROR])
  if finOf x = 1 ∧ IsControl (opcodeOf x) then a.control sent x
  else
    match a.pending with
    | none =>
      if finOf x = 1 then
        if opcodeOf x = WS_OPCODE_TEXT ∨ opcodeOf x = WS_OPCODE_BINARY then
          deliver (opcodeOf x) (payloadOf x)
        else fail
      else if opcodeOf x = WS_OPCODE_CONTINUE ∨ 8 ≤ opcodeOf x then fail
      else (⟨some (opcodeOf x, payloadOf x), a.closed⟩, [])
    | some (opcode, data) =>
      if opcodeOf x ≠ WS_OPCODE_CONTINUE then fail
      else if finOf x = 1 then deliver opcode (data ++ payloadOf x)
      else (⟨some (opcode, data ++ payloadOf x), a.closed⟩, [])

/-! ### A frame that is complete -/

theorem hdrLen_bounds (x : List UInt8) : 6 ≤ hdrLen x ∧ hdrLen x ≤ 14 := by
  unfold hdrLen
  rcases extLen_cases x with ⟨he, -⟩ | ⟨he, -⟩ | ⟨he, -⟩ <;> omega

section Complete

variable {x : List UInt8} {f : Frame} (h : Holding x f) (hx : IsFrame x)
include h hx

theorem complete_fields : GoodBits x ∧ f.fin = finOf x ∧ f.opcode = opcodeOf x ∧
    f.payload_offset = hdrLen x ∧ f.payload_len = lenOf x ∧ f.mask = maskOf x ∧
    x.length ≤ f.rawdata_sz := by
  obtain ⟨hgood, hlen⟩ := hx
  obtain ⟨h4, h2, hlt⟩ := lenEnd_lt x
  obtain ⟨-, hfin, hop, -⟩ := h.bits (by omega)
  obtain ⟨-, hoff, hplen⟩ := h.full (by omega) (by omega)
  exact ⟨hgood, hfin, hop, hoff, hplen, h.mask (by omega) (by omega), h.le⟩

/-- A byte of the payload. -/
theorem unmaskByte_eq {i : ℕ} (hi : i < lenOf x) :
    unmaskByte f i = x.getD (hdrLen x + i) 0 ^^^ (maskOf x).getD (i % 4) 0 := by
  obtain ⟨-, -, -, hoff, -, hmask, -⟩ := complete_fields h hx
  have hlen := hx.2
  rw [unmaskByte, hoff, hmask, ← h.get (show hdrLen x + i < x.length by omega)]
  push_cast
  rfl

theorem payload_eq : (List.range (lenOf x)).map (unmaskByte f) = payloadOf x := by
  have hlen := hx.2
  apply List.ext_getElem
  · simp [payloadOf, hlen]
  · intro i hi hi'
    rw [List.length_map, List.length_range] at hi
    rw [List.getElem_map, List.getElem_range, unmaskByte_eq h hx hi]
    simp only [payloadOf, applyMask, List.getElem_mapIdx, List.getElem_drop]
    rw [List.getD_eq_getElem _ _ (show hdrLen x + i < x.length by omega)]

theorem unmask_eq : f.unmask = .ok (payloadOf x) := by
  obtain ⟨-, -, -, hoff, hplen, -, hle⟩ := complete_fields h hx
  have hlen := hx.2
  rw [Frame.unmask, hoff, hplen, if_neg (by omega), payload_eq h hx]

end Complete

theorem length_payloadOf {x : List UInt8} (hx : IsFrame x) : (payloadOf x).length = lenOf x := by
  rw [payloadOf, length_applyMask, List.length_drop, hx.2, Nat.add_sub_cancel_left]

/-- The bytes still to be read stand behind the one that is written. -/
theorem unmaskByte_demask (f : Frame) {i j : ℕ} (h : i < j) :
    unmaskByte (demaskByte f i) j = unmaskByte f j := by
  have hread : (demaskByte f i).rawdata (f.payload_offset + j) =
      f.rawdata (f.payload_offset + j) := by
    refine Mem.write_of_ge _ _ ?_
    rw [List.length_singleton]
    push_cast
    omega
  unfold unmaskByte
  rw [show (demaskByte f i).payload_offset = f.payload_offset from rfl, hread]
  rfl

/-- The loop writes the payload four bytes in front of where it was. -/
theorem demaskLoop_eq (f : Frame) (i n : ℕ) :
    demaskLoop f i n = f.rawdata.write (f.payload_offset + i - 4)
      ((List.range n).map fun j => unmaskByte f (i + j)) := by
  induction n generalizing f i with
  | zero => rw [demaskLoop, List.range_zero, List.map_nil, Mem.write_nil]
  | succ n ih =>
    have hbytes : ((List.range n).map fun j => unmaskByte (demaskByte f i) (i + 1 + j)) =
        (List.range n).map fun j => unmaskByte f (i + (j + 1)) := by
      apply List.map_congr_left
      intro j _
      rw [unmaskByte_demask f (by omega), show i + 1 + j = i + (j + 1) by omega]
    have hoff : ((demaskByte f i).payload_offset : ℤ) + (i + 1 : ℕ) - 4 =
        f.payload_offset + i - 4 + [unmaskByte f i].length := by
      rw [List.length_singleton, show (demaskByte f i).payload_offset = f.payload_offset from rfl]
      push_cast
      ring
    rw [demaskLoop, ih, hbytes, hoff, List.range_succ_eq_map, List.map_cons, List.map_map]
    exact f.rawdata.write_append _ _ _

@[simp] theorem servify_payload_len (f : Frame) : (servify f).payload_len = f.payload_len := by
  simp only [servify]

@[simp] theorem servify_opcode (f : Frame) : (servify f).opcode = f.opcode := by
  simp only [servify]

@[simp] theorem servify_rawdata_sz (f : Frame) : (servify f).rawdata_sz = f.rawdata_sz := by
  simp only [servify]

section Servify

variable {x : List UInt8} {f : Frame} (h : Holding x f) (hx : IsFrame x)
include h hx

theorem servify_offset : (servify f).payload_offset = 2 + extLen x := by
  obtain ⟨-, -, -, hoff, -⟩ := complete_fields h hx
  have hb := hdrLen_bounds x
  show (CInt.uint32 (f.payload_offset - 4)).toNat = _
  rw [hoff]
  unfold hdrLen CInt.uint32 at *
  omega

theorem demask_eq : demaskLoop f 0 f.payload_len =
    f.rawdata.write ((2 + extLen x : ℕ) : ℤ) (payloadOf x) := by
  obtain ⟨-, -, -, hoff, hplen, -⟩ := complete_fields h hx
  have hbytes : ((List.range (lenOf x)).map fun j => unmaskByte f (0 + j)) = payloadOf x := by
    rw [← payload_eq h hx]
    apply List.map_congr_left
    intro j _
    rw [Nat.zero_add]
  rw [demaskLoop_eq, hplen, hbytes, hoff, hdrLen]
  congr 1
  push_cast
  ring

/-- The frame without its mask is there in front. -/
theorem servify_read :
    (servify f).rawdata.read 0 (2 + extLen x + lenOf x) =
      sentBack (x.getD 0 0) x (payloadOf x) := by
  have hb := hdrLen_bounds x
  have hlen := hx.2
  have hpay := length_payloadOf hx
  unfold hdrLen at hb hlen
  have hmoved : ∀ i < 2 + extLen x, demaskLoop f 0 f.payload_len (i : ℕ) = x.getD i 0 := by
    intro i hi
    rw [demask_eq h hx, Mem.write_of_lt _ _ (by exact_mod_cast hi), h.get (by omega)]
  have hraw : (servify f).rawdata =
      (demaskLoop f 0 f.payload_len).write 1 [x.getD 1 0 &&& 0x7f] := by
    rw [← hmoved 1 (by omega)]
    rfl
  have hzero : (servify f).rawdata.read 0 1 = [x.getD 0 0] := by
    rw [hraw, Mem.read_write_before _ _ (by norm_num), ← hmoved 0 (by omega)]
    rfl
  have hone : (servify f).rawdata.read 1 1 = [x.getD 1 0 &&& 0x7f] := by
    rw [hraw]
    exact Mem.read_write_self _ 1 [x.getD 1 0 &&& 0x7f]
  have hext : (servify f).rawdata.read 2 (extLen x) = (x.drop 2).take (extLen x) := by
    rw [hraw, Mem.read_write_after _ _ (by simp), demask_eq h hx,
      Mem.read_write_before _ _ (by push_cast; omega)]
    exact h.read (a := 2) (k := extLen x) (by omega)
  have hpayload : (servify f).rawdata.read ((2 + extLen x : ℕ) : ℤ) (lenOf x) = payloadOf x := by
    rw [hraw, Mem.read_write_after _ _ (by simp), demask_eq h hx, ← hpay]
    exact Mem.read_write_self _ _ _
  rw [Mem.read_add, show 2 + extLen x = 1 + (1 + extLen x) by omega, Mem.read_add, Mem.read_add,
    hzero]
  simp only [zero_add, Nat.cast_one]
  rw [hone, show (1 : ℤ) + 1 = 2 by norm_num, hext,
    show ((1 + (1 + extLen x) : ℕ) : ℤ) = ((2 + extLen x : ℕ) : ℤ) by push_cast; ring, hpayload]
  simp [sentBack]

/-- Its payload is there behind the header. -/
theorem servify_payload :
    (servify f).rawdata.read ((2 + extLen x : ℕ) : ℤ) (lenOf x) = payloadOf x := by
  have hread := servify_read h hx
  have hlen := hx.2
  have hb := hdrLen_bounds x
  unfold hdrLen at hb hlen
  have hhead : (x.getD 0 0 :: (x.getD 1 0 &&& 0x7f) :: (x.drop 2).take (extLen x)).length =
      2 + extLen x := by
    rw [List.length_cons, List.length_cons, List.length_take, List.length_drop]
    omega
  rw [Mem.read_add, zero_add] at hread
  have hsplit : sentBack (x.getD 0 0) x (payloadOf x) =
      (x.getD 0 0 :: (x.getD 1 0 &&& 0x7f) :: (x.drop 2).take (extLen x)) ++ payloadOf x := rfl
  rw [hsplit] at hread
  exact (List.append_inj hread (by rw [Mem.length_read, hhead])).2

/-- The close information that is read off the frame. -/
theorem servify_info (hshort : lenOf x ≤ 125) :
    libwebsock_populate_close_info_from_frame (servify f) = closeInfoOf (payloadOf x) := by
  obtain ⟨-, -, -, -, hplen, -⟩ := complete_fields h hx
  have hoff := servify_offset h hx
  have hpay := length_payloadOf hx
  have hread := servify_payload h hx
  unfold libwebsock_populate_close_info_from_frame closeInfoOf
  rw [servify_payload_len, hplen, hpay, hoff]
  by_cases h2 : lenOf x < 2
  · rw [if_pos h2, if_pos h2]
  · have hmin : min (lenOf x - 2) 124 = lenOf x - 2 := by omega
    have hcode := (servify f).rawdata.take_read ((2 + extLen x : ℕ) : ℤ)
      (show 2 ≤ lenOf x by omega)
    have hreason := (servify f).rawdata.drop_read ((2 + extLen x : ℕ) : ℤ)
      (show 2 ≤ lenOf x by omega)
    rw [hread] at hcode hreason
    have hpad : 124 - (lenOf x - 2) = 126 - lenOf x := by omega
    rw [Nat.cast_ofNat] at hreason
    rw [if_neg h2, if_neg h2]
    simp only [hmin, hpad, hcode, hreason]

/-- The frame with another first byte. -/
theorem servify_first (first : UInt8) :
    ((servify f).rawdata.write 0 [first]).read 0 (2 + extLen x + lenOf x) =
      sentBack first x (payloadOf x) := by
  have hread := servify_read h hx
  have hsum : 2 + extLen x + lenOf x = 1 + (1 + extLen x + lenOf x) := by omega
  rw [hsum, Mem.read_add] at hread ⊢
  have hafter : ((servify f).rawdata.write 0 [first]).read (0 + (1 : ℕ)) (1 + extLen x + lenOf x) =
      (servify f).rawdata.read (0 + (1 : ℕ)) (1 + extLen x + lenOf x) :=
    Mem.read_write_after _ _ (by simp)
  have hself : ((servify f).rawdata.write 0 [first]).read 0 1 = [first] :=
    Mem.read_write_self _ 0 [first]
  have hcut : sentBack (x.getD 0 0) x (payloadOf x) = [x.getD 0 0] ++
      ((x.getD 1 0 &&& 0x7f) :: ((x.drop 2).take (extLen x) ++ payloadOf x)) := rfl
  rw [hcut] at hread
  rw [hafter, hself, (List.append_inj hread (by rw [Mem.length_read]; rfl)).2]
  rfl

/-- The frame with another code. -/
theorem servify_code {code : List UInt8} (hcode : code.length = 2) (h2 : 2 ≤ lenOf x) :
    ((servify f).rawdata.write ((2 + extLen x : ℕ) : ℤ) code).read 0 (2 + extLen x + lenOf x) =
      sentBack (x.getD 0 0) x (code ++ (payloadOf x).drop 2) := by
  have hread := servify_read h hx
  have hpayload := servify_payload h hx
  have hrest := (servify f).rawdata.drop_read ((2 + extLen x : ℕ) : ℤ) h2
  rw [hpayload] at hrest
  have hhead : (servify f).rawdata.read 0 (2 + extLen x) =
      x.getD 0 0 :: (x.getD 1 0 &&& 0x7f) :: (x.drop 2).take (extLen x) := by
    rw [Mem.read_add, zero_add, hpayload] at hread
    exact List.append_cancel_right hread
  have hself := (servify f).rawdata.read_write_self ((2 + extLen x : ℕ) : ℤ) code
  rw [hcode] at hself
  obtain ⟨d, hd⟩ := Nat.exists_eq_add_of_le h2
  rw [Mem.read_add, Mem.read_write_before _ _ (by simp), hhead, zero_add, hd, Mem.read_add, hself,
    Mem.read_write_after _ _ (by rw [hcode]), hrest, hd, Nat.add_sub_cancel_left]
  rfl

end Servify

/-- What the members of a frame say that its header is not needed for. -/
structure Stale where
  fin : ℕ
  opcode : ℕ
  payload_offset : ℕ
  payload_len : ℕ

def Frame.stale (frame : Frame) : Stale :=
  ⟨frame.fin, frame.opcode, frame.payload_offset, frame.payload_len⟩

theorem servify_stale {x : List UInt8} {f : Frame} (h : Holding x f) (hx : IsFrame x) :
    (servify f).stale = ⟨finOf x, opcodeOf x, 2 + extLen x, lenOf x⟩ := by
  obtain ⟨-, hfin, hop, -, hplen, -⟩ := complete_fields h hx
  have hoff := servify_offset h hx
  have hsfin : (servify f).fin = f.fin := by simp only [servify]
  rw [Frame.stale, hoff, hsfin, servify_opcode, servify_payload_len, hfin, hop, hplen]

/-- A control frame is answered as the machine says, and only a close frame, or one at fault, has
the connection closed. -/
theorem control_callback {x : List UInt8} {f : Frame} (h : Holding x f) (hx : IsFrame x)
    (hc : IsControl (opcodeOf x)) {st : ClientState} (hinfo : st.close_info = none) {a : Msgs}
    (ha : a.closed = false) :
    ∃ st' g, libwebsock_default_control_callback st f =
        .ok (st', g, (a.control st.STATE_SENT_CLOSE_FRAME x).2) ∧ g.rawdata_sz = f.rawdata_sz ∧
      ((a.control st.STATE_SENT_CLOSE_FRAME x).1.closed = false →
        st' = st ∧ (a.control st.STATE_SENT_CLOSE_FRAME x).1 = a ∧
          g.stale = ⟨finOf x, opcodeOf x, 2 + extLen x, lenOf x⟩) ∧
      ((a.control st.STATE_SENT_CLOSE_FRAME x).1.closed = true →
        st'.STATE_SHOULD_CLOSE = true) := by
  obtain ⟨-, -, hop, hoff, hplen, -, hle⟩ := complete_fields h hx
  have hb := hdrLen_bounds x
  have hlen := hx.2
  have hsoff := servify_offset h hx
  have hsop : (servify f).opcode = opcodeOf x := (servify_opcode f).trans hop
  have hslen : (servify f).payload_len = lenOf x := (servify_payload_len f).trans hplen
  have hin : ¬ (0 < lenOf x ∧ (f.payload_offset < 4 ∨
      f.rawdata_sz < f.payload_offset + lenOf x)) := by
    rw [hoff]
    omega
  have hsz : ¬ (servify f).rawdata_sz < (servify f).payload_offset + (servify f).payload_len := by
    rw [hsoff, hslen, servify_rawdata_sz]
    unfold hdrLen at hb hlen
    omega
  have hecho : ∀ raw : Mem, ((servify f).setRawdata raw).echo =
      raw.read 0 (2 + extLen x + lenOf x) := by
    intro raw
    rw [← hsoff, ← hslen]
    rfl
  unfold libwebsock_default_control_callback Msgs.control
  rw [hplen]
  by_cases hbig : 125 < lenOf x
  · rw [if_pos hbig, if_pos hbig]
    exact ⟨_, _, rfl, rfl, by simp, fun _ => rfl⟩
  rw [if_neg hbig, if_neg hin, if_neg hbig]
  simp only [hsop]
  by_cases hclose : opcodeOf x = WS_OPCODE_CLOSE
  · have hinfo' := servify_info h hx (by omega)
    have h2 : (closeCode (closeInfoOf (payloadOf x))).isSome → 2 ≤ lenOf x := by
      intro hsome
      by_contra hno
      rw [closeInfoOf, if_pos (by rw [length_payloadOf hx]; omega)] at hsome
      cases hsome
    have hcode : ¬ ((closeCode (closeInfoOf (payloadOf x))).isSome ∧
        (servify f).rawdata_sz < (servify f).payload_offset + 2) := by
      rintro ⟨hsome, hlt⟩
      have := h2 hsome
      omega
    rw [if_pos hclose, if_pos hclose]
    simp only [hinfo, hinfo']
    rw [if_neg (fun hbad => hsz hbad.2), if_neg hcode]
    rcases hcc : closeCode (closeInfoOf (payloadOf x)) with _ | code
    · have hback : (servify f).echo = sentBack (x.getD 0 0) x (closeBack (payloadOf x)) := by
        rw [closeBack, hcc]
        exact (hecho (servify f).rawdata).trans (servify_read h hx)
      simp only [hback]
      exact ⟨_, _, rfl, servify_rawdata_sz f, by simp, fun _ => rfl⟩
    · have hback : ((servify f).setRawdata ((servify f).rawdata.write (servify f).payload_offset
          (toBe 2 code))).echo = sentBack (x.getD 0 0) x (closeBack (payloadOf x)) := by
        rw [hecho, hsoff, closeBack, hcc]
        exact servify_code h hx (length_toBe 2 code) (h2 (by rw [hcc]; rfl))
      simp only [hback]
      exact ⟨_, _, rfl, servify_rawdata_sz f, by simp, fun _ => rfl⟩
  · rw [if_neg hclose, if_neg hclose]
    by_cases hping : opcodeOf x = WS_OPCODE_PING
    · have hback := (hecho ((servify f).rawdata.write 0 [0x8a])).trans (servify_first h hx 0x8a)
      have hsz' : ¬ ((servify f).setRawdata ((servify f).rawdata.write 0 [0x8a])).rawdata_sz <
          ((servify f).setRawdata ((servify f).rawdata.write 0 [0x8a])).payload_offset +
          ((servify f).setRawdata ((servify f).rawdata.write 0 [0x8a])).payload_len := hsz
      rw [if_pos hping, if_pos hping, if_neg hsz', hback]
      exact ⟨_, _, rfl, servify_rawdata_sz f, fun _ => ⟨rfl, rfl, servify_stale h hx⟩, by simp [ha]⟩
    · have hpong : opcodeOf x = WS_OPCODE_PONG := (hc.resolve_left hclose).resolve_left hping
      rw [if_neg hping, if_neg hping, if_pos hpong]
      exact ⟨_, _, rfl, servify_rawdata_sz f, fun _ => ⟨rfl, rfl, servify_stale h hx⟩, by simp [ha]⟩

end Libwebsock
