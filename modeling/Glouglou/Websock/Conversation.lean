import Glouglou.Websock.Send
import Glouglou.Websock.Stream

/-!
# libwebsock: a conversation

A client sends messages, each in one or more fragments, with pings and pongs before, after and
between the fragments, every frame with a mask of its own (`Item`).  In whatever pieces the stream
is read, the pings are answered and the messages handed over whole, in the order of their last
frames (`conversation`).  With the callback that `libwebsock_init` registers the client reads off
the stream that it gets, which is cut in one way, its pings and its texts (`echo`).
-/

open CString Transducer

namespace Libwebsock

/-- A payload and the mask that it is sent under. -/
structure Chunk where
  mask : List UInt8
  payload : List UInt8

/-- A frame of a client. -/
def Chunk.frame (c : Chunk) (fin : Bool) (opcode : ℕ) : List UInt8 :=
  UInt8.ofNat ((if fin then 0x80 else 0) + opcode) ::
    (lenBytes 0x80 c.payload.length ++ (c.mask ++ applyMask c.mask c.payload))

/-- A ping, or a pong. -/
structure Ctl where
  ping : Bool
  chunk : Chunk

def Ctl.frame (c : Ctl) : List UInt8 :=
  c.chunk.frame true (if c.ping then WS_OPCODE_PING else WS_OPCODE_PONG)

/-- A message: its fragments but the last, each with the control frames that follow it, and the
last. -/
structure Message where
  text : Bool
  fragments : List (Chunk × List Ctl)
  last : Chunk

/-- The frames from a fragment on that is sent under `opcode`. -/
def framesFrom (opcode : ℕ) : List (Chunk × List Ctl) → Chunk → List (List UInt8)
  | [], last => [last.frame true opcode]
  | (c, ctls) :: fragments, last =>
    c.frame false opcode :: (ctls.map Ctl.frame ++ framesFrom WS_OPCODE_CONTINUE fragments last)

namespace Message

def opcode (m : Message) : ℕ := if m.text then WS_OPCODE_TEXT else WS_OPCODE_BINARY

def frames (m : Message) : List (List UInt8) := framesFrom m.opcode m.fragments m.last

def data (m : Message) : List UInt8 := m.fragments.flatMap (·.1.payload) ++ m.last.payload

def ctls (m : Message) : List Ctl := m.fragments.flatMap (·.2)

end Message

/-- What a client sends. -/
inductive Item
  | control (c : Ctl)
  | message (m : Message)

def Item.frames : Item → List (List UInt8)
  | .control c => [c.frame]
  | .message m => m.frames

/-- What is done about a control frame. -/
def Ctl.effects (c : Ctl) : List Ev :=
  if c.ping then
    [.evbuffer_add (0x8a :: (lenBytes 0 c.chunk.payload.length ++ c.chunk.payload))]
  else []

def Item.effects : Item → List Ev
  | .control c => c.effects
  | .message m => m.ctls.flatMap Ctl.effects ++ [.onmessage m.opcode (u64 m.data.length) m.data]

/-! ### What is sent is well formed -/

def Chunk.Valid (c : Chunk) : Prop := c.mask.length = 4 ∧ c.payload.length + 14 ≤ 2 ^ 31

def Ctl.Valid (c : Ctl) : Prop := c.chunk.mask.length = 4 ∧ c.chunk.payload.length ≤ 125

structure Message.Valid (m : Message) : Prop where
  fragments : ∀ p ∈ m.fragments, p.1.Valid ∧ ∀ c ∈ p.2, c.Valid
  last : m.last.Valid
  text : m.text = true → validate_utf8_sequence m.data 0 = true

def Item.Valid : Item → Prop
  | .control c => c.Valid
  | .message m => m.Valid

theorem first_fields (fin : Bool) {opcode : ℕ} (hop : opcode < 16) :
    (UInt8.ofNat ((if fin then 0x80 else 0) + opcode)).toNat &&& 0x70 = 0 ∧
      (UInt8.ofNat ((if fin then 0x80 else 0) + opcode)).toNat &&& 0x80 =
        (if fin then 0x80 else 0) ∧
      (UInt8.ofNat ((if fin then 0x80 else 0) + opcode)).toNat &&& 0xf = opcode := by
  revert opcode
  cases fin <;> decide

theorem length_lenBytes (mask : UInt8) (len : ℕ) : (lenBytes mask len).length ≤ 9 := by
  unfold lenBytes
  split_ifs <;> simp

/-- A frame of a client, and the fields that are read off it. -/
theorem frame_fields {c : Chunk} (hc : c.Valid) (fin : Bool) {opcode : ℕ} (hop : opcode < 16) :
    IsFrame (c.frame fin opcode) ∧ (c.frame fin opcode).length ≤ 2 ^ 31 ∧
      finOf (c.frame fin opcode) = (if fin then 1 else 0) ∧
      opcodeOf (c.frame fin opcode) = opcode ∧ lenOf (c.frame fin opcode) = c.payload.length ∧
      payloadOf (c.frame fin opcode) = c.payload := by
  obtain ⟨hmask, hsize⟩ := hc
  obtain ⟨hbits, hfin, hopcode⟩ := first_fields fin hop
  have hwidth : c.payload.length < 2 ^ 64 := by omega
  obtain ⟨hsecond, hext, hlen⟩ := lenBytes_fields (.inr rfl) hwidth
    (UInt8.ofNat ((if fin then 0x80 else 0) + opcode)) (c.mask ++ applyMask c.mask c.payload)
    (x := c.frame fin opcode) rfl
  have hnine := length_lenBytes 0x80 c.payload.length
  have hfull : (c.frame fin opcode).length =
      hdrLen (c.frame fin opcode) + lenOf (c.frame fin opcode) := by
    rw [hlen, hdrLen, Chunk.frame, List.length_cons, List.length_append, List.length_append,
      length_applyMask, hmask, ← Chunk.frame]
    omega
  have hdrop : (c.frame fin opcode).drop (2 + extLen (c.frame fin opcode)) =
      c.mask ++ applyMask c.mask c.payload := by
    rw [show 2 + extLen (c.frame fin opcode) = (lenBytes 0x80 c.payload.length).length + 1 by omega,
      Chunk.frame, List.drop_succ_cons, List.drop_left]
  have hm : maskOf (c.frame fin opcode) = c.mask := by
    rw [maskOf, hdrop]
    exact List.take_left' hmask
  refine ⟨⟨⟨hbits, hsecond⟩, hfull⟩, ?_, ?_, hopcode, hlen, ?_⟩
  · rw [hfull, hlen, hdrLen]
    omega
  · have hhead : finOf (c.frame fin opcode) =
        if (if fin then 0x80 else 0) = 0x80 then 1 else 0 := by
      rw [← hfin]
      rfl
    rw [hhead]
    cases fin <;> rfl
  · have hrest : (c.frame fin opcode).drop (hdrLen (c.frame fin opcode)) =
        applyMask c.mask c.payload := by
      have hsum : hdrLen (c.frame fin opcode) = 2 + extLen (c.frame fin opcode) + 4 := by
        rw [hdrLen]
        omega
      rw [hsum, ← List.drop_drop, hdrop]
      exact List.drop_left' hmask
    rw [payloadOf, hm, hrest, applyMask_applyMask]

/-! ### What the machine does with it -/

section Machine

variable {sent : Bool} {a : Msgs}

theorem Ctl.Valid.chunk {c : Ctl} (h : c.Valid) : c.chunk.Valid :=
  ⟨h.1, by have := h.2; omega⟩

/-- A ping sent back. -/
theorem sentBack_ping {c : Ctl} (h : c.Valid) (opcode : ℕ) :
    sentBack 0x8a (c.chunk.frame true opcode) c.chunk.payload =
      0x8a :: (lenBytes 0 c.chunk.payload.length ++ c.chunk.payload) := by
  have hstrip : ∀ n < 128, (0x80 ||| UInt8.ofNat n) &&& 0x7f = UInt8.ofNat n := by decide
  have hframe : c.chunk.frame true opcode = UInt8.ofNat (0x80 + opcode) ::
      (0x80 ||| UInt8.ofNat c.chunk.payload.length) ::
        (c.chunk.mask ++ applyMask c.chunk.mask c.chunk.payload) := by
    rw [Chunk.frame, lenBytes, if_pos h.2]
    rfl
  obtain ⟨-, hext, -⟩ := short_fields (.inr rfl) h.2 _ _ hframe
  have hsecond : (c.chunk.frame true opcode).getD 1 0 &&& 0x7f =
      UInt8.ofNat c.chunk.payload.length := by
    rw [hframe]
    exact hstrip _ (by have := h.2; omega)
  rw [sentBack, hsecond, hext, List.take_zero, lenBytes, if_pos h.2, UInt8.zero_or]
  rfl

theorem accept_ctl {c : Ctl} (h : c.Valid) (ha : a.closed = false) :
    Accept sent a c.frame c.effects a := by
  have hop : (if c.ping then WS_OPCODE_PING else WS_OPCODE_PONG) < 16 := by
    split_ifs <;> decide
  obtain ⟨hx, hle, hfin, hopcode, hlen, hpayload⟩ := frame_fields h.chunk true hop
  have hfin' : finOf c.frame = 1 := hfin
  have h125 : ¬ 125 < lenOf c.frame := by
    rw [Ctl.frame, hlen]
    exact not_lt.2 h.2
  have hctl : IsControl (opcodeOf c.frame) := by
    rw [Ctl.frame, hopcode]
    cases c.ping with
    | true => exact .inr (.inl rfl)
    | false => exact .inr (.inr rfl)
  refine ⟨ha, hx, hle, ?_⟩
  rw [accept_control hfin' hctl, Msgs.control, if_neg h125, Ctl.frame, hopcode, hpayload,
    Ctl.effects]
  cases c.ping with
  | true => rw [if_pos rfl, if_neg (by decide), if_pos rfl, sentBack_ping h, if_pos rfl]
  | false => rw [if_neg (by decide), if_neg (by decide), if_neg (by decide)]

theorem ctls_run {ctls : List Ctl} (h : ∀ c ∈ ctls, c.Valid) (ha : a.closed = false) :
    Run (Accept sent) a (ctls.map Ctl.frame) (ctls.flatMap Ctl.effects) a := by
  induction ctls with
  | nil => exact .nil
  | cons c ctls ih =>
    rw [List.map_cons, List.flatMap_cons]
    exact .cons (accept_ctl (h c List.mem_cons_self) ha)
      (ih fun c' hc' => h c' (List.mem_cons_of_mem _ hc'))

/-- A message that is complete and, if it is a text, valid. -/
theorem deliver_valid {opcode : ℕ} {data : List UInt8}
    (h : opcode = WS_OPCODE_TEXT → validate_utf8_sequence data 0 = true) :
    deliver opcode data = (⟨none, false⟩, [.onmessage opcode (u64 data.length) data]) := by
  refine if_neg fun hno => ?_
  rw [h hno.1] at hno
  cases hno.2

/-- The fragments after the first. -/
theorem continue_run {fragments : List (Chunk × List Ctl)} {last : Chunk} {opcode : ℕ}
    {data : List UInt8} (hf : ∀ p ∈ fragments, p.1.Valid ∧ ∀ c ∈ p.2, c.Valid) (hl : last.Valid)
    (htext : opcode = WS_OPCODE_TEXT → validate_utf8_sequence
      (data ++ (fragments.flatMap (·.1.payload) ++ last.payload)) 0 = true) :
    Run (Accept sent) ⟨some (opcode, data), false⟩
      (framesFrom WS_OPCODE_CONTINUE fragments last)
      ((fragments.flatMap (·.2)).flatMap Ctl.effects ++
        (deliver opcode (data ++ (fragments.flatMap (·.1.payload) ++ last.payload))).2)
      ⟨none, false⟩ := by
  have hcont : ¬ IsControl WS_OPCODE_CONTINUE := by decide
  induction fragments generalizing data with
  | nil =>
    obtain ⟨hx, hle, hfin, hop, -, hpayload⟩ :=
      frame_fields hl true (show WS_OPCODE_CONTINUE < 16 by decide)
    have hone : finOf (last.frame true WS_OPCODE_CONTINUE) = 1 := hfin
    rw [List.flatMap_nil, List.nil_append] at htext
    refine .single ⟨rfl, hx, hle, ?_⟩
    rw [accept_next rfl fun hno => hcont (hop ▸ hno.2), hop, if_neg (not_not.2 rfl), hpayload,
      if_pos hone, List.flatMap_nil, List.flatMap_nil, List.nil_append, List.flatMap_nil,
      List.nil_append, deliver_valid htext]
  | cons p fragments ih =>
    obtain ⟨c, ctls⟩ := p
    obtain ⟨hc, hctls⟩ := hf _ List.mem_cons_self
    obtain ⟨hx, hle, hfin, hop, -, hpayload⟩ :=
      frame_fields hc false (show WS_OPCODE_CONTINUE < 16 by decide)
    rw [List.flatMap_cons, List.append_assoc, ← List.append_assoc] at htext
    have hfirst : Accept sent ⟨some (opcode, data), false⟩ (c.frame false WS_OPCODE_CONTINUE) []
        ⟨some (opcode, data ++ c.payload), false⟩ := by
      refine ⟨rfl, hx, hle, ?_⟩
      rw [accept_next rfl fun hno => hcont (hop ▸ hno.2), hop, if_neg (not_not.2 rfl), hpayload,
        if_neg (by rw [hfin]; decide)]
    have hrest := ih (fun p hp => hf p (List.mem_cons_of_mem _ hp)) htext
    have hall := (Run.cons hfirst (ctls_run hctls rfl)).trans hrest
    rw [List.flatMap_cons, List.flatMap_cons, List.flatMap_append, List.append_assoc,
      List.append_assoc (c.payload), ← List.append_assoc data]
    exact hall

/-- A message. -/
theorem message_run {m : Message} (h : m.Valid) :
    Run (Accept sent) ⟨none, false⟩ m.frames (Item.message m).effects ⟨none, false⟩ := by
  have hdata : m.opcode = WS_OPCODE_TEXT ∨ m.opcode = WS_OPCODE_BINARY := by
    unfold Message.opcode
    cases m.text with
    | true => exact .inl rfl
    | false => exact .inr rfl
  have hlt : m.opcode < 8 := by
    unfold WS_OPCODE_TEXT WS_OPCODE_BINARY at hdata
    omega
  have hcont : ¬ IsControl m.opcode := by
    unfold IsControl WS_OPCODE_CLOSE WS_OPCODE_PING WS_OPCODE_PONG
    omega
  have htext : m.opcode = WS_OPCODE_TEXT → validate_utf8_sequence m.data 0 = true := by
    intro hop
    refine h.text ?_
    by_contra hno
    rw [Message.opcode, if_neg hno] at hop
    cases hop
  have heffects : (Item.message m).effects =
      m.ctls.flatMap Ctl.effects ++ (deliver m.opcode m.data).2 := by
    rw [deliver_valid htext]
    rfl
  rw [heffects]
  have hm : m.opcode < 16 := by omega
  rcases hf : m.fragments with _ | ⟨⟨c, ctls⟩, fragments⟩
  · obtain ⟨hx, hle, hfin, hop, -, hpayload⟩ := frame_fields h.last true hm
    have hone : finOf (m.last.frame true m.opcode) = 1 := hfin
    have hwhole : m.data = m.last.payload := by
      rw [Message.data, hf, List.flatMap_nil, List.nil_append]
    rw [Message.frames, Message.ctls, hf, List.flatMap_nil, List.flatMap_nil, List.nil_append]
    refine .single ⟨rfl, hx, hle, ?_⟩
    rw [accept_single rfl hone (by rwa [hop]), hop, if_pos hdata, hpayload, ← hwhole,
      deliver_valid htext]
  · have hall := h.fragments
    rw [hf] at hall
    obtain ⟨hc, hctls⟩ := hall _ List.mem_cons_self
    obtain ⟨hx, hle, hfin, hop, -, hpayload⟩ := frame_fields hc false hm
    have hzero : finOf (c.frame false m.opcode) ≠ 1 := by
      rw [hfin]
      decide
    have hnone : ¬ (m.opcode = WS_OPCODE_CONTINUE ∨ 8 ≤ m.opcode) := by
      unfold WS_OPCODE_TEXT WS_OPCODE_BINARY at hdata
      unfold WS_OPCODE_CONTINUE
      omega
    have hfirst : Accept sent ⟨none, false⟩ (c.frame false m.opcode) []
        ⟨some (m.opcode, c.payload), false⟩ := by
      refine ⟨rfl, hx, hle, ?_⟩
      rw [accept_first rfl hzero, hop, if_neg hnone, hpayload]
    have hwhole : m.data = c.payload ++ (fragments.flatMap (·.1.payload) ++ m.last.payload) := by
      rw [Message.data, hf, List.flatMap_cons, List.append_assoc]
    rw [hwhole] at htext ⊢
    have hrest : Run (Accept sent) _ _ _ _ := continue_run
      (fun p hp => hall p (List.mem_cons_of_mem _ hp)) h.last htext
    rw [Message.frames, Message.ctls, hf, List.flatMap_cons, List.flatMap_append, List.append_assoc]
    exact (Run.cons hfirst (ctls_run hctls rfl)).trans hrest

theorem items_run {items : List Item} (h : ∀ i ∈ items, i.Valid) :
    Run (Accept sent) ⟨none, false⟩ (items.flatMap Item.frames) (items.flatMap Item.effects)
      ⟨none, false⟩ := by
  induction items with
  | nil => exact .nil
  | cons i items ih =>
    have hi := h i List.mem_cons_self
    have hitem : Run (Accept sent) ⟨none, false⟩ i.frames i.effects ⟨none, false⟩ := by
      cases i with
      | control c => exact .single (accept_ctl hi rfl)
      | message m => exact message_run hi
    rw [List.flatMap_cons, List.flatMap_cons]
    exact hitem.trans (ih fun j hj => h j (List.mem_cons_of_mem _ hj))

end Machine

/-- In whatever pieces the stream of a client is read, each ping is answered with its payload, and
each message is handed over whole, in the order of their last frames. -/
theorem conversation (malloc : ℕ → Mem) (n : ℕ) (sent : Bool) (items : List Item)
    (h : ∀ i ∈ items, i.Valid) (pieces : List (List UInt8))
    (hpieces : pieces.flatten = (items.flatMap Item.frames).flatten) :
    ∃ st', receive malloc n (fresh sent) pieces = .ok (st', items.flatMap Item.effects) ∧
      st'.STATE_SHOULD_CLOSE = false := by
  have hmap := map_paired malloc n pieces.flatten
  rw [hpieces] at hmap
  obtain ⟨st', hrun, hr, -⟩ := frames_run (items_run h) rfl ready_fresh current_fresh hmap
  rw [← hpieces] at hrun
  exact ⟨st', receive_outcome malloc n (.of_run hrun), hr.should⟩

/-- A ping, and a text in two fragments with a pong between them. -/
def greeting : List Item :=
  [.control ⟨true, ⟨[1, 2, 3, 4], [7]⟩⟩,
    .message ⟨true, [(⟨[1, 2, 3, 4], [72]⟩, [⟨false, ⟨[0, 0, 0, 0], []⟩⟩])], ⟨[5, 6, 7, 8], [105]⟩⟩]

theorem greeting_valid : ∀ i ∈ greeting, i.Valid := by
  refine List.forall_mem_cons.2 ⟨⟨rfl, by decide⟩, List.forall_mem_singleton.2 ⟨?_, ?_, ?_⟩⟩
  · refine List.forall_mem_singleton.2 ⟨⟨rfl, by decide⟩, ?_⟩
    exact List.forall_mem_singleton.2 ⟨rfl, by decide⟩
  · exact ⟨rfl, by decide⟩
  · exact fun _ => rfl

theorem conversation_greeting : ∃ st', receive (fun _ _ => 0) 0 (fresh false)
      [[0x89, 0x81, 1, 2, 3, 4, 6, 0x01], [0x81, 1, 2, 3, 4, 73, 0x8a, 0x80, 0],
        [0, 0, 0, 0x80, 0x81, 5, 6, 7, 8, 108]] =
        .ok (st', [.evbuffer_add [0x8a, 1, 7], .onmessage 1 2 [72, 105]]) ∧
      st'.STATE_SHOULD_CLOSE = false :=
  conversation _ 0 false greeting greeting_valid _ rfl

/-! ### The answers -/

/-- `libwebsock_default_onmessage_callback`, on the payload of a message, which ends with a zero
byte -/
def libwebsock_default_onmessage_callback (payload : List UInt8) :
    Except SendFault (List UInt8) :=
  libwebsock_send_text (payload ++ [0])

/-- What is put out for the effects of the receiver, a part for each. -/
def output : List Ev → Except SendFault (List (List UInt8))
  | [] => .ok []
  | .evbuffer_add data :: evs => (output evs).map (data :: ·)
  | .onmessage _ _ payload :: evs =>
    match libwebsock_default_onmessage_callback payload with
    | .error e => .error e
    | .ok frame => (output evs).map (frame :: ·)
  | .bufferevent_setcb :: evs => output evs

/-- What the client is to read: a pong for a ping, and a text for a message, up to the first zero
byte of it. -/
def Ctl.replies (c : Ctl) : List (UInt8 × List UInt8) :=
  if c.ping then [(0x8a, c.chunk.payload)] else []

def Item.replies : Item → List (UInt8 × List UInt8)
  | .control c => c.replies
  | .message m => m.ctls.flatMap Ctl.replies ++ [(0x81, view m.data)]

/-- The frames `ys` are those of the effects `evs`, and are read as `replies`. -/
def Answers (evs : List Ev) (replies : List (UInt8 × List UInt8)) : Prop :=
  ∃ ys, output evs = .ok ys ∧ (∀ y ∈ ys, IsPlain y) ∧
    ys.map (fun y => (y.getD 0 0, plainOf y)) = replies

theorem output_append {evs evs' : List Ev} {ys ys' : List (List UInt8)}
    (h : output evs = .ok ys) (h' : output evs' = .ok ys') :
    output (evs ++ evs') = .ok (ys ++ ys') := by
  induction evs generalizing ys with
  | nil =>
    cases h
    exact h'
  | cons e evs ih =>
    rw [List.cons_append]
    cases e with
    | evbuffer_add data =>
      rw [output] at h ⊢
      rcases hout : output evs with err | zs
      · rw [hout] at h
        cases h
      · rw [hout] at h
        cases h
        rw [ih hout]
        rfl
    | onmessage opcode len payload =>
      rw [output] at h ⊢
      rcases hcall : libwebsock_default_onmessage_callback payload with err | frame
      · simp only [hcall] at h
        cases h
      · rcases hout : output evs with err | zs
        · simp only [hcall, hout] at h
          cases h
        · simp only [hcall, hout] at h
          cases h
          simp only [ih hout]
          rfl
    | bufferevent_setcb =>
      rw [output] at h ⊢
      exact ih h

theorem Answers.append {evs evs' : List Ev} {replies replies' : List (UInt8 × List UInt8)}
    (h : Answers evs replies) (h' : Answers evs' replies') :
    Answers (evs ++ evs') (replies ++ replies') := by
  obtain ⟨ys, hout, hplain, rfl⟩ := h
  obtain ⟨ys', hout', hplain', rfl⟩ := h'
  refine ⟨ys ++ ys', output_append hout hout', fun y hy => ?_, List.map_append⟩
  exact (List.mem_append.1 hy).elim (hplain y) (hplain' y)

theorem answers_nil : Answers [] [] := ⟨[], rfl, by simp, rfl⟩

theorem answers_flatMap {ι : Type*} {l : List ι} {f : ι → List Ev}
    {g : ι → List (UInt8 × List UInt8)} (h : ∀ i ∈ l, Answers (f i) (g i)) :
    Answers (l.flatMap f) (l.flatMap g) := by
  induction l with
  | nil => exact answers_nil
  | cons i l ih =>
    rw [List.flatMap_cons, List.flatMap_cons]
    exact (h i List.mem_cons_self).append (ih fun j hj => h j (List.mem_cons_of_mem _ hj))

/-- One frame. -/
theorem answers_single {e : Ev} {first : UInt8} {payload : List UInt8}
    (hlen : payload.length < 2 ^ 64)
    (h : output [e] = .ok [first :: (lenBytes 0 payload.length ++ payload)]) :
    Answers [e] [(first, payload)] := by
  obtain ⟨hplain, hpayload⟩ := isPlain_cons hlen first rfl
  refine ⟨_, h, List.forall_mem_singleton.2 hplain, ?_⟩
  rw [List.map_singleton, hpayload]
  rfl

theorem answers_ctl {c : Ctl} (h : c.Valid) : Answers c.effects c.replies := by
  have h125 := h.2
  unfold Ctl.effects Ctl.replies
  cases c.ping with
  | false => exact answers_nil
  | true => exact answers_single (by omega) rfl

theorem answers_message (opcode len : ℕ) {data : List UInt8}
    (h : (view data).length + 10 < 2 ^ 32) :
    Answers [.onmessage opcode len data] [(0x81, view data)] := by
  have hview : view (data ++ [0]) = view data := view_concat_zero data
  have hle : (view data).length ≤ data.length := (List.takeWhile_prefix _).length_le
  have hsend : libwebsock_default_onmessage_callback data =
      .ok (0x81 :: (lenBytes 0 (view data).length ++ view data)) := by
    rw [libwebsock_default_onmessage_callback, libwebsock_send_text, hview,
      send_fragment_eq (by rw [List.length_append]; omega) h, List.take_append_of_le_length hle,
      take_length_view]
    rfl
  refine answers_single (by omega) ?_
  rw [output, hsend]
  rfl

/-- With the callback that is registered first, a client reads off what it gets, whichever way it
cuts it into frames, the payloads of its pings and the texts of its messages, in their order. -/
theorem echo (malloc : ℕ → Mem) (n : ℕ) (sent : Bool) (items : List Item)
    (h : ∀ i ∈ items, i.Valid)
    (hfit : ∀ m : Message, .message m ∈ items → (view m.data).length + 10 < 2 ^ 32)
    (pieces : List (List UInt8)) (hpieces : pieces.flatten = (items.flatMap Item.frames).flatten) :
    ∃ st' out ys, receive malloc n (fresh sent) pieces = .ok (st', out) ∧ output out = .ok ys ∧
      (∀ y ∈ ys, IsPlain y) ∧
      ∀ zs : List (List UInt8), (∀ z ∈ zs, IsPlain z) → zs.flatten = ys.flatten →
        zs.map (fun z => (z.getD 0 0, plainOf z)) = items.flatMap Item.replies := by
  have hanswers : Answers (items.flatMap Item.effects) (items.flatMap Item.replies) := by
    refine answers_flatMap fun i hi => ?_
    cases i with
    | control c => exact answers_ctl (h _ hi)
    | message m =>
      have hctls : ∀ c ∈ m.ctls, c.Valid := by
        intro c hc
        obtain ⟨p, hp, hcp⟩ := List.mem_flatMap.1 hc
        exact ((h _ hi).fragments p hp).2 c hcp
      exact (answers_flatMap fun c hc => answers_ctl (hctls c hc)).append
        (answers_message _ _ (hfit m hi))
  obtain ⟨ys, hout, hplain, hmap⟩ := hanswers
  have hbytes := map_paired malloc n pieces.flatten
  rw [hpieces] at hbytes
  obtain ⟨st', hrun, -, -⟩ := frames_run (items_run h) rfl ready_fresh current_fresh hbytes
  rw [← hpieces] at hrun
  refine ⟨st', _, ys, receive_outcome malloc n (.of_run hrun), hout, hplain, fun zs hzs hflat => ?_⟩
  rw [plain_unique hplain hzs hflat, hmap]

theorem echo_greeting : ∃ st' out ys, receive (fun _ _ => 0) 0 (fresh false)
      [[0x89, 0x81, 1, 2, 3, 4, 6, 0x01], [0x81, 1, 2, 3, 4, 73, 0x8a, 0x80, 0],
        [0, 0, 0, 0x80, 0x81, 5, 6, 7, 8, 108]] = .ok (st', out) ∧ output out = .ok ys ∧
      (∀ y ∈ ys, IsPlain y) ∧
      ∀ zs : List (List UInt8), (∀ z ∈ zs, IsPlain z) → zs.flatten = ys.flatten →
        zs.map (fun z => (z.getD 0 0, plainOf z)) = [(0x8a, [7]), (0x81, [72, 105])] := by
  refine echo _ 0 false greeting greeting_valid (fun m hm => ?_) _ rfl
  rcases List.mem_cons.1 hm with hm | hm
  · cases hm
  · cases List.mem_singleton.1 hm
    decide

end Libwebsock
