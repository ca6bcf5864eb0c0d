import Glouglou.Libglouglou.Server.Session

/-!
# What becomes of the bytes for a peer

The bytes that the owner appends for a peer wait in the buffer of its user and are sent, or are
lost when the last flush of a session fails.  The account of an address (`Ledger`) adds up what
was appended and what was sent since the last opening or closing datagram to it; at each of
these datagrams it is put away and a new one begun.

`StepBooks` says what one step means for the account of one address, `peer_books` what holds of
the accounts after every run and after `gg_server_stop`: what one peer is sent is what was
appended for it, and nothing of what was appended for another.
-/

open CInt Libsendbuf Transducer

namespace Libglouglou

variable {Pkt : Type}

/-- The account of an address since the last marker, and the accounts put away before. -/
structure Ledger where
  appended : List UInt8
  carried : List UInt8
  closed : List (List UInt8 × List UInt8)

/-- An account with nothing in it. -/
def Ledger.blank : Ledger := ⟨[], [], []⟩

/-- What an effect does to the account of an address. -/
def Ledger.step (a : SockaddrIn) (l : Ledger) : Ev Pkt → Ledger
  | .sendto _ addr _ _ =>
    if addrcmp addr a = 0 then ⟨[], [], l.closed ++ [(l.appended, l.carried)]⟩ else l
  | .sendbuf addr e =>
    if addrcmp addr a = 0 then
      { l with
        appended := l.appended ++ (accepted e).flatten
        carried := l.carried ++ taken e }
    else l
  | _ => l

/-- A call of the send function of the user at an address failed. -/
def Ev.FailedTo (a : SockaddrIn) : Ev Pkt → Prop
  | .sendbuf addr (.send _ _ _ sent) => addrcmp addr a = 0 ∧ sent = -1
  | _ => False

/-- The open account is what was appended, less what the buffer still holds, and is blank for an
address that is not registered; a closed one has a first part of what was appended, and all of it
if no call of the send function failed (`whole`). -/
structure Balanced (s : GgServer) (a : SockaddrIn) (whole : Prop) (l : Ledger) : Prop where
  balance : l.carried ++ buffered s a = l.appended
  blank : ¬ Registered s a → l.appended = []
  closed : ∀ p ∈ l.closed, p.2 <+: p.1 ∧ (whole → p.2 = p.1)

/-! ### Adding up -/

/-- The effects of a buffer are entered in the account of its user. -/
theorem foldl_sendbuf (a addr : SockaddrIn) (es : List Libsendbuf.Ev) (l : Ledger) :
    (es.map (Ev.sendbuf addr : _ → Ev Pkt)).foldl (Ledger.step a) l =
      if addrcmp addr a = 0 then
        { l with
          appended := l.appended ++ (es.flatMap accepted).flatten
          carried := l.carried ++ es.flatMap taken }
      else l := by
  induction es generalizing l with
  | nil => simp
  | cons e es ih =>
    rw [List.map_cons, List.foldl_cons, ih]
    by_cases ha : addrcmp addr a = 0
    · simp only [Ledger.step, if_pos ha, List.flatMap_cons, List.flatten_append,
        List.append_assoc]
    · simp only [Ledger.step, if_neg ha]

theorem foldl_owner {out : List (Ev Pkt)} (h : ∀ e ∈ out, e.Owner) (a : SockaddrIn) (l : Ledger) :
    out.foldl (Ledger.step a) l = l := by
  induction out with
  | nil => rfl
  | cons e out ih =>
    have he := h e List.mem_cons_self
    rw [List.foldl_cons]
    rw [show Ledger.step a l e = l by cases e <;> first | rfl | exact he.elim]
    exact ih fun e' he' => h e' (List.mem_cons_of_mem _ he')

/-! ### What the buffers hold -/

theorem buffered_none {s : GgServer} {a : SockaddrIn} (h : ¬ Registered s a) :
    buffered s a = [] := by
  have hnone : s.user_list.find? (fun usr => addrcmp usr.addr a = 0) = none := by
    rw [List.find?_eq_none]
    intro usr hmem ha
    exact h ⟨usr, hmem, by simpa using ha⟩
  rw [buffered, hnone]

/-- A user that kept its address and its buffer. -/
theorem buffered_same {env : Env Pkt} {s t : GgServer} (hs : Serving env s) (ht : Inv t)
    {u v : GgUser} (hu : u ∈ s.user_list) (hv : v ∈ t.user_list) (haddr : v.addr = u.addr)
    (hsbuf : v.sbuf = u.sbuf) {a : SockaddrIn} (ha : addrcmp v.addr a = 0) :
    buffered t a = buffered s a := by
  obtain ⟨sbuf, hsb, -⟩ := hs.ready u hu
  rw [buffered_eq ht hv (hsbuf.trans hsb) ha, buffered_eq hs.inv hu hsb (haddr ▸ ha)]

/-- An operation on a ready buffer, as a step. -/
theorem ready_step {s : Sendbuf} (hs : Ready s) {op : Op} (hf : WholeOrFail op.send_func)
    (hsize : op.size ≤ s.buffer_size) : SafeStep s op (exec s op).2 (exec s op).1 := by
  have h1 := hs.inv.pos_le
  have h2 := hs.small
  refine ⟨⟨hsize, rfl, fun e he => ?_⟩, ?_⟩
  · rcases mem_exec he with he | ⟨ha, -, -⟩
    · exact (whole_flush hf hs.inv e he).1
    · exact ha
  · unfold RoomFits INT_MAX
    omega

/-- The last flush takes everything, or its call failed and it takes nothing. -/
theorem free_taken {s : Sendbuf} (hs : Ready s) {f : SendFunc} (hf : WholeOrFail f) :
    (sendbuf_free f s).flatMap accepted = [] ∧
      ((sendbuf_free f s).flatMap taken = pending s ∨
        ((sendbuf_free f s).flatMap taken = [] ∧
          ∃ off n data, Libsendbuf.Ev.send off n data (-1) ∈ sendbuf_free f s)) := by
  rcases hflush : sendbuf_flush f s with ⟨r, u, ev⟩
  have hw := whole_flush hf hs.inv
  rw [hflush] at hw
  have hfl := flushed hs.inv hflush fun e he => (hw e he).1
  simp only [sendbuf_free, hflush, List.flatMap_cons]
  cases hfl with
  | empty h0 => exact ⟨rfl, .inl (pending_eq_nil hs.inv h0).symm⟩
  | failed hlt =>
    exact ⟨rfl, .inr ⟨rfl, _, _, _, List.mem_cons_of_mem _ (List.mem_singleton.2 rfl)⟩⟩
  | part hlt sent h0 h1 =>
    -- the transport takes nothing in part
    have h : sent = -1 ∨ sent = s.buffer_pos - s.flushing_pos :=
      (hw _ (List.mem_singleton.2 rfl)).2
    omega
  | whole hlt =>
    refine ⟨rfl, .inl ?_⟩
    have hlen := length_pending hs.inv
    rw [List.flatMap_singleton]
    exact List.take_of_length_le
      (show (pending s).length ≤ (s.buffer_pos - s.flushing_pos).toNat by omega)

/-! ### One step -/

namespace Balanced

variable {s t : GgServer} {a : SockaddrIn} {whole : Prop} {l : Ledger}

/-- Nothing happened to the peer. -/
theorem idle (h : Balanced s a whole l) (hreg : Registered t a ↔ Registered s a)
    (hbuf : buffered t a = buffered s a) : Balanced t a whole l :=
  ⟨by rw [hbuf]; exact h.balance, fun hno => h.blank fun hr => hno (hreg.2 hr), h.closed⟩

/-- The peer was registered: what was open before is blank. -/
theorem opened (h : Balanced s a whole l) (hs : ¬ Registered s a) (hbuf : buffered t a = []) :
    Balanced t a whole ⟨[], [], l.closed ++ [(l.appended, l.carried)]⟩ := by
  have hbal := h.balance
  rw [buffered_none hs, List.append_nil] at hbal
  refine ⟨hbuf, fun _ => rfl, fun p hp => ?_⟩
  rcases List.mem_append.1 hp with hp | hp
  · exact h.closed p hp
  · rw [List.mem_singleton.1 hp]
    exact ⟨hbal ▸ List.prefix_refl _, fun _ => hbal⟩

/-- The peer was removed: what its buffer held was sent, or was lost in a call that failed. -/
theorem removed (h : Balanced s a whole l) (ht : ¬ Registered t a) {c : List UInt8}
    (hc : c = buffered s a ∨ (c = [] ∧ ¬ whole)) :
    Balanced t a whole ⟨[], [], l.closed ++ [(l.appended, l.carried ++ c)]⟩ := by
  refine ⟨buffered_none ht, fun _ => rfl, fun p hp => ?_⟩
  rcases List.mem_append.1 hp with hp | hp
  · exact h.closed p hp
  · rw [List.mem_singleton.1 hp]
    rcases hc with rfl | ⟨rfl, hno⟩
    · rw [h.balance]
      exact ⟨List.prefix_refl _, fun _ => rfl⟩
    · rw [List.append_nil]
      exact ⟨h.balance ▸ List.prefix_append _ _, fun hw => absurd hw hno⟩

/-- The buffer of the peer took in `p` and sent `c`. -/
theorem moved (h : Balanced s a whole l) (ht : Registered t a) {c p : List UInt8}
    (hcp : c ++ buffered t a = buffered s a ++ p) :
    Balanced t a whole { l with appended := l.appended ++ p, carried := l.carried ++ c } := by
  refine ⟨?_, fun hno => absurd ht hno, h.closed⟩
  show (l.carried ++ c) ++ buffered t a = l.appended ++ p
  rw [List.append_assoc, hcp, ← List.append_assoc, h.balance]

end Balanced

/-- What a step means for the account of every address. -/
def StepBooks (s t : GgServer) (out : List (Ev Pkt)) : Prop :=
  ∀ a whole l, (whole → ∀ e ∈ out, ¬ e.FailedTo a) → Balanced s a whole l →
    Balanced t a whole (out.foldl (Ledger.step a) l)

/-- Removal of a linked user. -/
theorem del_books {env : Env Pkt} {s t : GgServer} (hs : Serving env s) {net : Net}
    (hw : net.World) {usr : GgUser} (h : usr ∈ s.user_list)
    (hreg : ∀ a, Registered t a ↔ ¬ addrcmp usr.addr a = 0 ∧ Registered s a)
    (hbuf : ∀ a, Registered t a → buffered t a = buffered s a) :
    StepBooks s t (delEvs net usr : List (Ev Pkt)) := by
  intro a whole l hwhole hl
  obtain ⟨sbuf, hsbuf, hready, -⟩ := hs.ready usr h
  obtain ⟨hacc, htaken⟩ := free_taken hready (hw.wholeOrFail usr)
  have hevs : (delEvs net usr : List (Ev Pkt)) =
      (sendbuf_free (net.cb_usr_send usr) sbuf).map (Ev.sendbuf usr.addr) ++
        (user_send net usr []).2 := by
    rw [delEvs, hsbuf]
  rw [hevs] at hwhole ⊢
  rw [List.foldl_append, foldl_sendbuf, hacc]
  simp only [user_send, List.foldl_cons, List.foldl_nil, Ledger.step]
  by_cases ha : addrcmp usr.addr a = 0
  · rw [if_pos ha, if_pos ha, List.flatten_nil, List.append_nil]
    refine hl.removed (fun hr => ((hreg a).1 hr).1 ha) ?_
    rw [buffered_eq hs.inv h hsbuf ha]
    rcases htaken with htaken | ⟨hnil, off, n, data, hmem⟩
    · exact .inl htaken
    · refine .inr ⟨hnil, fun hw' => ?_⟩
      exact hwhole hw' _ (List.mem_append_left _ (List.mem_map_of_mem hmem)) ⟨ha, rfl⟩
  · rw [if_neg ha, if_neg ha]
    have hiff : Registered t a ↔ Registered s a := (hreg a).trans (and_iff_right ha)
    refine hl.idle hiff ?_
    by_cases hr : Registered t a
    · exact hbuf a hr
    · rw [buffered_none hr, buffered_none fun hr' => hr (hiff.2 hr')]

/-- A datagram. -/
theorem datagram_books {env : Env Pkt} (hf : env.Finds) (hk : env.KeepsBuffers)
    (hb : env.SndbufFits) {s t : GgServer} {i : Input} {out : List (Ev Pkt)} (hs : Serving env s)
    (hw : i.net.World) (h : Step env s i out t) : StepBooks s t out := by
  have ht := (datagram_ok hf hk hb hs hw h).serving
  cases received hf hs.inv h with
  | error => exact fun a whole l _ hl => hl
  | @added remote buf hr hnew _ mem _ =>
    intro a whole l _ hl
    have hmem : addedUser env s remote mem ∈ addedUser env s remote mem :: s.user_list :=
      List.mem_cons_self
    have hkey : key (addedUser env s remote mem).addr = key remote :=
      key_addrcpy ⟨0, 0, 0, 0⟩ remote
    rw [List.append_assoc, List.foldl_append, List.foldl_append]
    simp only [user_send, List.foldl_cons, List.foldl_nil, Ledger.step, accepted, taken,
      List.flatten_nil, List.append_nil, ite_self]
    by_cases ha : addrcmp (addedUser env s remote mem).addr a = 0
    · rw [if_pos ha]
      refine hl.opened ?_ ?_
      · rw [registered_iff, ← (addrcmp_eq_zero_iff _ _).1 ha, hkey]
        exact hnew
      · rw [buffered_eq ht.inv hmem rfl ha]
        rfl
    · rw [if_neg ha]
      have hreg := registered_cons (s := s) (t := { s with
        ptrs := s.ptrs + 1
        user_id_count := int32 (s.user_id_count + 1)
        user_count := int32 (s.user_count + 1)
        user_list := addedUser env s remote mem :: s.user_list }) rfl a
      refine hl.idle (hreg.trans (or_iff_right ha)) ?_
      by_cases hra : Registered s a
      · obtain ⟨v, hv, hva⟩ := hra
        exact buffered_same hs ht.inv hv (List.mem_cons_of_mem _ hv) rfl rfl hva
      · rw [buffered_none hra, buffered_none fun h => hra ((hreg.1 h).resolve_left ha)]
  | @removed remote buf hr hlen usr l₁ l₂ hl hkey =>
    have hmem : usr ∈ s.user_list := by rw [hl]; simp
    refine del_books hs hw hmem (registered_removed hs.inv hl rfl) fun a ha => ?_
    obtain ⟨v, hv, hva⟩ := ha
    exact buffered_same hs ht.inv (mem_of_removed hl v hv) hv rfl rfl hva
  | @handed remote buf t out hr hlen hold hkeep hout =>
    intro a whole l _ hl
    have hslots : t.slots = s.slots :=
      hkeep GgServer.slots fun _ hh srv usr pkt => (hk _ hh srv usr pkt).1
    have hreg : Registered t a ↔ Registered s a := by
      rw [registered_iff, registered_iff, GgServer.keys, GgServer.keys, entries_of_slots hslots]
    rw [foldl_owner hout]
    refine hl.idle hreg ?_
    by_cases hra : Registered t a
    · obtain ⟨v, hv, hva⟩ := hra
      have hmem : (v.ptr, v.addr, v.sbuf) ∈ s.slots := by
        rw [← hslots]
        exact List.mem_map_of_mem hv
      obtain ⟨u, hu, heq⟩ := List.mem_map.1 hmem
      simp only [Prod.mk.injEq] at heq
      exact buffered_same hs ht.inv hu hv heq.2.1.symm heq.2.2.symm hva
    · rw [buffered_none hra, buffered_none fun h => hra (hreg.2 h)]

/-- The list after an operation on the buffer of a user. -/
theorem onSbuf_list {s t : GgServer} {usr : ℕ} {op : GgUser → Libsendbuf.Op}
    {out : List (Ev Pkt)} (h : onSbuf s usr op = some (t, out)) :
    ∃ u ∈ s.user_list, u.ptr = usr ∧ ∃ sbuf, u.sbuf = some sbuf ∧
      out = (exec sbuf (op u)).2.map (Ev.sendbuf u.addr) ∧
      t.user_list = s.user_list.map fun v =>
        if v.ptr = usr then { v with sbuf := some (exec sbuf (op u)).1 } else v := by
  unfold onSbuf at h
  rcases hfind : s.user_list.find? (·.ptr = usr) with _ | u
  · simp only [hfind, reduceCtorEq] at h
  · rcases hsbuf : u.sbuf with _ | sbuf
    · simp only [hfind, hsbuf, reduceCtorEq] at h
    · simp only [hfind, hsbuf, Option.some.injEq, Prod.mk.injEq] at h
      obtain ⟨rfl, rfl⟩ := h
      exact ⟨u, List.mem_of_find?_eq_some hfind, by simpa using List.find?_some hfind, sbuf, hsbuf,
        rfl, rfl⟩

/-- An append, or a turn of the timer. -/
theorem onSbuf_books {env : Env Pkt} {s t : GgServer} {usr : ℕ} {op : GgUser → Libsendbuf.Op}
    {out : List (Ev Pkt)} (hs : Serving env s) (h : onSbuf s usr op = some (t, out))
    (hw : ∀ u, WholeOrFail (op u).send_func) (hsize : ∀ u, (op u).size ≤ env.PACKET_SNDBUF_MAX) :
    StepBooks s t out := by
  intro a whole l _ hl
  have ht := (onSbuf_ok hs h hw hsize).serving
  obtain ⟨u, hu, rfl, sbuf, hsbuf, rfl, hlist⟩ := onSbuf_list h
  obtain ⟨sbuf', hsbuf', hready, hbs⟩ := hs.ready u hu
  obtain rfl : sbuf' = sbuf := Option.some.inj (hsbuf'.symm.trans hsbuf)
  have hnd := hs.inv.keys
  rw [GgServer.keys_eq] at hnd
  -- the user in the new list, and any other
  have hmem : { u with sbuf := some (exec sbuf' (op u)).1 } ∈ t.user_list := by
    rw [hlist]
    exact List.mem_map.2 ⟨u, hu, if_pos rfl⟩
  have hreg : Registered t a ↔ Registered s a := by
    rw [registered_iff, registered_iff, GgServer.keys_eq, GgServer.keys_eq, hlist, List.map_map]
    refine iff_of_eq (congrArg (key a ∈ ·) (List.map_congr_left fun v _ => ?_))
    simp only [Function.comp_apply]
    split_ifs <;> rfl
  rw [foldl_sendbuf]
  by_cases ha : addrcmp u.addr a = 0
  · rw [if_pos ha]
    refine hl.moved (hreg.2 ⟨u, hu, ha⟩) ?_
    rw [buffered_eq ht.inv hmem rfl ha, buffered_eq hs.inv hu hsbuf ha]
    have hstep := ready_step hready (hw u) (by rw [hbs]; exact hsize u)
    rw [Fifo.conservation (step_fifo hready.inv hstep), pushed_toFifo]
  · rw [if_neg ha]
    refine hl.idle hreg ?_
    by_cases hra : Registered s a
    · obtain ⟨v, hv, hva⟩ := hra
      have hne : v.ptr ≠ u.ptr := by
        intro heq
        have hnd' := hs.inv.ptrs
        rw [GgServer.entries, List.map_map] at hnd'
        exact ha (List.inj_on_of_nodup_map hnd' hv hu heq ▸ hva)
      have hvt : v ∈ t.user_list := by
        rw [hlist]
        exact List.mem_map.2 ⟨v, hv, if_neg hne⟩
      exact buffered_same hs ht.inv hv hvt rfl rfl hva
    · rw [buffered_none hra, buffered_none fun h => hra (hreg.1 h)]

theorem session_books {env : Env Pkt} (hf : env.Finds) (hk : env.KeepsBuffers)
    (hb : env.SndbufFits) {s t : GgServer} {op : SessionOp} {out : List (Ev Pkt)}
    (hs : Serving env s) (h : SessionStep env s op out t) : StepBooks s t out := by
  cases op with
  | datagram i => exact datagram_books hf hk hb hs h.1 h.2.2
  | append net usr token =>
    obtain ⟨hw, -, hlen, h⟩ := h
    exact onSbuf_books hs h (fun u => hw.wholeOrFail u) fun _ => hlen
  | timer net usr =>
    obtain ⟨hw, h⟩ := h
    have hpos := hb.pos
    exact onSbuf_books hs h (fun u => hw.wholeOrFail u) fun _ => by
      show (0 : ℤ) ≤ _
      omega

/-! ### Runs -/

theorem StepBooks.trans {s t u : GgServer} {es es' : List (Ev Pkt)} (h : StepBooks s t es)
    (h' : StepBooks t u es') : StepBooks s u (es ++ es') := by
  intro a whole l hwhole hl
  rw [List.foldl_append]
  refine h' a whole _ (fun hw e he => hwhole hw e (List.mem_append_right _ he)) ?_
  exact h a whole l (fun hw e he => hwhole hw e (List.mem_append_left _ he)) hl

theorem run_books {env : Env Pkt} (hf : env.Finds) (hk : env.KeepsBuffers) (hb : env.SndbufFits)
    {t : GgServer} {ops : List SessionOp} {es : List (Ev Pkt)}
    (h : Run (SessionStep env) start ops es t) : StepBooks start t es := by
  induction h with
  | nil => exact fun a whole l _ hl => hl
  | snoc hr hstep ih =>
    exact ih.trans (session_books hf hk hb (run_sessions hf hk hb hr).1 hstep)

/-- The loop of `gg_server_stop` puts every account away. -/
theorem stop_books {net : Net} (hw : net.World) {env : Env Pkt} {fuel : ℕ} {s t : GgServer}
    {out : List (Ev Pkt)} (hs : Serving env s)
    (h : gg_server_stop net fuel s = some (.ok (t, out))) : StepBooks s t out := by
  induction fuel generalizing s out with
  | zero => cases h
  | succ fuel ih =>
    unfold gg_server_stop at h
    rcases hl : s.user_list with _ | ⟨usr, us⟩
    · simp only [hl, Option.some.injEq, Except.ok.injEq, Prod.mk.injEq] at h
      obtain ⟨rfl, rfl⟩ := h
      exact fun a whole l _ hl => hl
    · have hmem : usr ∈ s.user_list := by
        rw [hl]
        exact List.mem_cons_self
      obtain ⟨u, hdel, hok, -, hreg, hbuf⟩ := user_del_ok hs hw hmem
      simp only [hl, hdel] at h
      rcases hstop : (gg_server_stop net fuel u : Option (Except (List (Ev Pkt)) _)) with
        _ | _ | ⟨t', out'⟩
      · simp [hstop] at h
      · simp [hstop] at h
      · simp only [hstop, Option.some.injEq, Except.ok.injEq, Prod.mk.injEq] at h
        obtain ⟨rfl, rfl⟩ := h
        exact (del_books hs hw hmem hreg hbuf).trans (ih hok.serving hstop)

theorem balanced_start (a : SockaddrIn) (whole : Prop) : Balanced start a whole .blank :=
  ⟨rfl, fun _ => rfl, fun _ hp => by cases hp⟩

/-- **The bytes for a peer.**  In every run and for every peer address: what was sent since the
last marker to it, followed by what its buffer holds, is what was appended for it since then,
which is nothing while it is not registered; and of every session that ended, a first part of
what was appended was sent, and all of it if no call of the send function for the peer failed.
After `gg_server_stop` every session has ended. -/
theorem peer_books {env : Env Pkt} (hf : env.Finds) (hk : env.KeepsBuffers)
    (hb : env.SndbufFits) {t : GgServer} {ops : List SessionOp} {es : List (Ev Pkt)}
    (h : Run (SessionStep env) start ops es t) (a : SockaddrIn) :
    Balanced t a (∀ e ∈ es, ¬ e.FailedTo a) (es.foldl (Ledger.step a) .blank) ∧
    ∀ net, net.World → ∀ fuel, t.user_list.length < fuel →
      ∃ (u : GgServer) (out : List (Ev Pkt)), gg_server_stop net fuel t = some (.ok (u, out)) ∧
        Balanced u a (∀ e ∈ es ++ out, ¬ e.FailedTo a)
          ((es ++ out).foldl (Ledger.step a) .blank) ∧
        ((es ++ out).foldl (Ledger.step a) .blank).appended = [] := by
  have hbooks := run_books hf hk hb h
  have hs := (run_sessions hf hk hb h).1
  refine ⟨hbooks a _ _ id (balanced_start a _), fun net hw fuel hfuel => ?_⟩
  obtain ⟨u, out, hstop, hnil, -⟩ := stop_sessions hw hs hfuel
  have hbal := (hbooks.trans (stop_books hw hs hstop)) a _ _ id (balanced_start a _)
  exact ⟨u, out, hstop, hbal, hbal.blank (by simp [Registered, hnil])⟩

/-- A probe registers, is appended two bytes and leaves: it was sent the two bytes. -/
theorem peer_books_visit :
    ∃ es t, Run (SessionStep listEnv) start visit es t ∧
      (es.foldl (Ledger.step ⟨2, 4430, 1, 0⟩) .blank).closed =
        [([], []), ([104, 105], [104, 105])] ∧
      Balanced t ⟨2, 4430, 1, 0⟩ (∀ e ∈ es, ¬ e.FailedTo ⟨2, 4430, 1, 0⟩)
        (es.foldl (Ledger.step ⟨2, 4430, 1, 0⟩) .blank) := by
  obtain ⟨es, t, hrun, hclosed⟩ : ∃ es t, Run (SessionStep listEnv) start visit es t ∧
      (es.foldl (Ledger.step ⟨2, 4430, 1, 0⟩) .blank).closed =
        [([], []), ([104, 105], [104, 105])] := by
    refine ⟨_, _, Run.cons ⟨loopback_world, ⟨rfl, rfl⟩, rfl⟩
      (Run.cons ⟨loopback_world, by decide, by decide, rfl⟩
        (Run.single ⟨loopback_world, ⟨rfl, rfl⟩, rfl⟩)), ?_⟩
    decide
  exact ⟨es, t, hrun, hclosed,
    (peer_books listEnv_finds listEnv_keepsBuffers listEnv_fits hrun _).1⟩

end Libglouglou
