import Glouglou.Lib.Lines
import Glouglou.Glougloud.ModNet.Basic
import Glouglou.Glougloud.Viz.Delivery

/-!
# The text stream of the network module

Notification after notification, the lines that `ggdmodviz_text_get` renders are written to a
client.  A key is taken for a node event by its second byte and its length alone, and its name
is copied up to a terminator, whatever is in it.  So the events can be read off the stream
exactly if every key that is rendered has the slashes of a record and a name with neither a
terminator nor a newline in it (`stream_determines`).
-/

open CInt CString Redis Viz Transducer

namespace ModNet

/-- What `_redis_cb_notification` hands to the module. -/
structure Notification where
  op : Option (List UInt8)
  op_len : ℤ
  key : List UInt8

/-- The call for a notification. -/
def Notification.render (n : Notification) (text : Mem) : Rendered :=
  ggdmodviz_text_get text n.op n.op_len n.key (int32 n.key.length)

/-- One call, on the buffer as the last one left it, and the bytes that a client is sent. -/
def Step (text : Mem) (n : Notification) (out : List UInt8) (text' : Mem) : Prop :=
  out = ((n.render text).text).getD [] ∧ text' = (n.render text).s

/-- The keys that are long enough and of one of the two kinds. -/
def Accepted (key : List UInt8) : Prop := 4 ≤ key.length ∧ (verb (key.getD 1 0)).isSome

instance : DecidablePred Accepted := fun _ => inferInstanceAs (Decidable (_ ∧ _))

/-- A record of the current state: `/n/` or `/N/` and a name. -/
def Documented (key : List UInt8) : Prop :=
  ∃ name, name ≠ [] ∧ (key = ascii "/n/" ++ name ∨ key = ascii "/N/" ++ name)

/-- A key that, if it is rendered, is a record whose name stays on its line. -/
def Clean (key : List UInt8) : Prop :=
  Accepted key →
    key.getD 0 0 = 47 ∧ key.getD 2 0 = 47 ∧ 0 ∉ key.drop 3 ∧ 10 ∉ key.drop 3

instance : DecidablePred Clean := fun _ => inferInstanceAs (Decidable (_ → _))

/-- The keys that were accepted. -/
def accepted (ns : List Notification) : List (List UInt8) :=
  (ns.map (·.key)).filter (Accepted ·)

/-- The line of a key, less its newline. -/
def lineText (key : List UInt8) : List UInt8 :=
  (verb (key.getD 1 0)).getD [] ++ view (key.drop 3)

/-- The key of the event that a line tells of. -/
def readLine (l : List UInt8) : Option (List UInt8) :=
  if ascii "New node " <+: l then some (ascii "/n/" ++ l.drop 9)
  else if ascii "Delete node " <+: l then some (ascii "/N/" ++ l.drop 12)
  else none

/-! ### One call -/

theorem line_of_accepted {key : List UInt8} (h : Accepted key) :
    line key = some (lineText key ++ [10]) := by
  obtain ⟨v, hv⟩ := Option.isSome_iff_exists.1 h.2
  rw [line, lineText, hv]
  rfl

/-- A key of at most 4000 bytes has its length as an `int`. -/
theorem int32_length {key : List UInt8} (h : key.length ≤ 4000) :
    int32 key.length = key.length :=
  int32_of_mem (by omega) (by unfold INT_MAX; omega)

/-- An accepted key is rendered as its line. -/
theorem text_of_accepted {n : Notification} (text : Mem) (hlen : n.key.length ≤ 4000)
    (h : Accepted n.key) :
    0 < (n.render text).len ∧ (n.render text).text = some (lineText n.key ++ [10]) := by
  have hline := line_of_accepted h
  have h4 : ¬ int32 n.key.length < 4 := by
    rw [int32_length hlen]
    have := h.1
    omega
  have hfit : (lineText n.key ++ [10]).length ≤ 4095 := by
    have hview : (view (n.key.drop 3)).length ≤ (n.key.drop 3).length :=
      (List.takeWhile_sublist _).length_le
    rw [List.length_drop] at hview
    rw [length_line hline]
    split_ifs <;> omega
  have hagree : Agrees (n.render text) := by
    refine (agrees_iff text n.op n.op_len n.key).2 fun _ l hl => .inl ?_
    rw [hline] at hl
    cases hl
    exact Nat.lt_succ_of_le hfit
  have hrender := text_get_eq text n.op n.op_len n.key h4
  rw [hline] at hrender
  have hpos : 0 < (n.render text).len := by
    rw [Notification.render, hrender]
    simp only [snprintf]
    rw [if_neg (by unfold INT_MAX; omega), List.length_append, List.length_singleton]
    omega
  have hstored : stored (n.render text) = lineText n.key ++ [10] := by
    rw [stored, Notification.render, hrender,
      view_snprintf _ 0 (show 0 < textSize by decide) (line_no_zero hline),
      List.take_of_length_le (show _ ≤ textSize - 1 from hfit)]
  refine ⟨hpos, ?_⟩
  rw [Rendered.text, if_neg (not_le.2 hpos), read_of_agrees hagree hpos, hstored]

/-- Any other key is refused. -/
theorem text_of_not_accepted {n : Notification} (text : Mem) (hlen : n.key.length ≤ 4000)
    (h : ¬ Accepted n.key) : n.render text = ⟨-1, text.write 0 [0]⟩ := by
  rw [Notification.render]
  by_cases h4 : int32 n.key.length < 4
  · exact text_get_short text n.op n.op_len n.key h4
  · rw [text_get_eq text n.op n.op_len n.key h4]
    rw [int32_length hlen] at h4
    have hverb : verb (n.key.getD 1 0) = none := by
      rw [← Option.not_isSome_iff_eq_none]
      exact fun hsome => h ⟨by omega, hsome⟩
    rw [line, hverb]
    rfl

theorem rendered_iff {n : Notification} (text : Mem) (hlen : n.key.length ≤ 4000) :
    0 < (n.render text).len ↔ Accepted n.key := by
  by_cases h : Accepted n.key
  · exact iff_of_true (text_of_accepted text hlen h).1 h
  · rw [text_of_not_accepted text hlen h]
    exact iff_of_false (by norm_num) h

/-- What a call sends. -/
theorem step_out {text text' : Mem} {n : Notification} {out : List UInt8}
    (h : Step text n out text') (hlen : n.key.length ≤ 4000) :
    out = if Accepted n.key then lineText n.key ++ [10] else [] := by
  rw [h.1]
  split_ifs with ha
  · rw [(text_of_accepted text hlen ha).2]
    rfl
  · rw [text_of_not_accepted text hlen ha]
    rfl

/-- A notification of the viz server is such a call: this is what it writes to each of its
clients. -/
theorem step_written {text : Mem} {s : GlouglouViz} (hi : Inv [netModule text] s)
    {reply : RedisReply} {locals : Ntf} {p : Parsed} {evs : List Ev} {key : List UInt8} {bev : ℕ}
    (hp : redis_parse_keyspace_notification reply locals = .ok p) (hret : ¬ p.ret < 4)
    (hdb : p.ntf.ntf_db = GLOUGLOUD_MOD_NET_ID) (hkey : p.ntf.ntf_target = some key)
    (h : redis_cb_notification s (some reply) locals = .ok evs) (hb : bev ∈ s.linked) :
    ∃ text', Step text ⟨p.ntf.ntf_op, p.ntf.ntf_op_len, key⟩ (written bev evs) text' := by
  refine ⟨_, ?_, rfl⟩
  have hrender : (netModule text).render p.ntf =
      Notification.render ⟨p.ntf.ntf_op, p.ntf.ntf_op_len, key⟩ text := by
    unfold Ggdmodviz.render netModule Notification.render
    rw [parse_target hp hret key hkey, hkey]
    simp only [Option.getD_some]
  have hid : decide ((netModule text).id = p.ntf.ntf_db) = true := decide_eq_true hdb.symm
  rw [written_notification hi h, if_pos hb, Op.texts]
  simp only [hp]
  rw [if_neg hret, List.filter_cons, if_pos hid, List.filter_nil, ← hrender]
  rcases ht : ((netModule text).render p.ntf).text with _ | t
  · simp only [List.filterMap_cons, ht]
    rfl
  · simp only [List.filterMap_cons, ht]
    exact List.append_nil t

/-! ### Reading a line -/

/-- The key that is read off the first line of an accepted key. -/
def firstKey (key : List UInt8) : List UInt8 :=
  47 :: key.getD 1 0 :: 47 :: (view (key.drop 3)).takeWhile (· ≠ 10)

theorem readLine_created (name : List UInt8) :
    readLine (ascii "New node " ++ name) = some (ascii "/n/" ++ name) := by
  rw [readLine, if_pos (List.prefix_append _ _), List.drop_left' (by decide)]

theorem readLine_deleted (name : List UInt8) :
    readLine (ascii "Delete node " ++ name) = some (ascii "/N/" ++ name) := by
  have hnew : ¬ ascii "New node " <+: ascii "Delete node " ++ name := by
    rintro ⟨t, ht⟩
    -- they differ in their first byte
    have hhead := congrArg (fun l : List UInt8 => l.getD 0 0) ht
    exact absurd (show (78 : UInt8) = 68 from hhead) (by decide)
  rw [readLine, if_neg hnew, if_pos (List.prefix_append _ _), List.drop_left' (by decide)]

theorem verb_no_newline {c : UInt8} {v : List UInt8} (h : verb c = some v) : 10 ∉ v := by
  unfold verb at h
  split_ifs at h
  · cases h
    decide
  · cases h
    decide

/-- A text without a newline is all on its first line. -/
theorem forall_ne_newline {l : List UInt8} (h : 10 ∉ l) : ∀ c ∈ l, decide (c ≠ 10) = true := by
  intro c hc
  exact decide_eq_true fun h10 => h (h10 ▸ hc)

/-- The first line of an accepted key is read. -/
theorem readLine_lineText {key : List UInt8} (h : Accepted key) :
    readLine ((lineText key).takeWhile (· ≠ 10)) = some (firstKey key) := by
  obtain ⟨v, hv⟩ := Option.isSome_iff_exists.1 h.2
  rw [lineText, hv, firstKey, Option.getD_some,
    List.takeWhile_append_of_pos (forall_ne_newline (verb_no_newline hv))]
  unfold verb at hv
  split_ifs at hv with h1 h2
  · cases hv
    rw [readLine_created, h1]
    rfl
  · cases hv
    rw [readLine_deleted, h2]
    rfl

/-- An accepted key is what is read off its first line exactly if it is clean. -/
theorem firstKey_eq_self_iff {key : List UInt8} (h : Accepted key) :
    firstKey key = key ↔ Clean key := by
  obtain ⟨hlen, hverb⟩ := h
  rcases key with _ | ⟨a, _ | ⟨b, _ | ⟨c, name⟩⟩⟩
  · simp at hlen
  · simp at hlen
  · simp at hlen
  · simp only [firstKey, Clean, List.getD_cons_zero, List.getD_cons_succ, List.drop_succ_cons,
      List.drop_zero, List.cons.injEq, true_and]
    constructor
    · rintro ⟨ha, hc, hname⟩ -
      refine ⟨ha.symm, hc.symm, ?_, ?_⟩
      · intro hm
        rw [← hname] at hm
        exact zero_not_mem_view name ((List.takeWhile_sublist _).subset hm)
      · intro hm
        rw [← hname] at hm
        exact absurd (List.mem_takeWhile_imp hm) (by decide)
    · intro hclean
      obtain ⟨ha, hc, h0, h10⟩ := hclean ⟨hlen, hverb⟩
      refine ⟨ha.symm, hc.symm, ?_⟩
      rw [view_of_no_zero h0, List.takeWhile_eq_self_iff]
      exact forall_ne_newline h10

/-- An accepted key with the two slashes is a record, and a record is such a key. -/
theorem documented_iff (key : List UInt8) :
    Documented key ↔ Accepted key ∧ key.getD 0 0 = 47 ∧ key.getD 2 0 = 47 := by
  constructor
  · rintro ⟨name, hne, rfl | rfl⟩
    · exact ⟨⟨by simpa [ascii] using Nat.succ_le_of_lt (List.length_pos_iff.2 hne), rfl⟩, rfl, rfl⟩
    · exact ⟨⟨by simpa [ascii] using Nat.succ_le_of_lt (List.length_pos_iff.2 hne), rfl⟩, rfl, rfl⟩
  · rintro ⟨⟨hlen, hverb⟩, ha, hc⟩
    rcases key with _ | ⟨a, _ | ⟨b, _ | ⟨c, name⟩⟩⟩
    · simp at hlen
    · simp at hlen
    · simp at hlen
    · obtain rfl : a = 47 := ha
      obtain rfl : c = 47 := hc
      have hne : name ≠ [] := by
        rintro rfl
        simp at hlen
      obtain ⟨v, hv⟩ := Option.isSome_iff_exists.1 hverb
      unfold verb at hv
      split_ifs at hv with h1 h2
      · obtain rfl : b = 110 := h1
        exact ⟨name, hne, .inl rfl⟩
      · obtain rfl : b = 78 := h2
        exact ⟨name, hne, .inr rfl⟩

/-- A clean key is rendered exactly if it is a record. -/
theorem Clean.accepted_iff {key : List UInt8} (h : Clean key) : Accepted key ↔ Documented key := by
  rw [documented_iff]
  constructor
  · intro ha
    obtain ⟨h0, h2, -⟩ := h ha
    exact ⟨ha, h0, h2⟩
  · exact fun hd => hd.1

/-- A clean key that is rendered stands on one line, off which it is read. -/
theorem Clean.readLine {key : List UInt8} (h : Clean key) (ha : Accepted key) :
    10 ∉ lineText key ∧ ModNet.readLine (lineText key) = some key := by
  have hsep : 10 ∉ lineText key := by
    obtain ⟨-, -, -, h10⟩ := h ha
    obtain ⟨v, hv⟩ := Option.isSome_iff_exists.1 ha.2
    rw [lineText, hv, Option.getD_some, List.mem_append, not_or]
    exact ⟨verb_no_newline hv, fun hm => h10 ((List.takeWhile_sublist _).subset hm)⟩
  have hself : (lineText key).takeWhile (· ≠ 10) = lineText key := by
    rw [List.takeWhile_eq_self_iff]
    exact forall_ne_newline hsep
  have hread := readLine_lineText ha
  rw [hself, (firstKey_eq_self_iff ha).2 h] at hread
  exact ⟨hsep, hread⟩

/-- The keys of a stream are read back exactly if they are clean. -/
theorem readBack_keys {keys : List (List UInt8)} (h : ∀ key ∈ keys, Accepted key) :
    Lines.readBack 10 readLine (Lines.text 10 lineText keys) = keys ↔ ∀ key ∈ keys, Clean key := by
  constructor
  · intro heq key hkey
    have hfirst := Lines.readBack_eq_self (fun k hk => readLine_lineText (h k hk)) heq key hkey
    exact (firstKey_eq_self_iff (h key hkey)).1 hfirst
  · exact fun hclean => Lines.readBack_text 10 fun key hkey =>
      (hclean key hkey).readLine (h key hkey)

/-! ### The stream -/

theorem exists_run (ns : List Notification) (text : Mem) :
    ∃ out text', Run Step text ns out text' := by
  induction ns generalizing text with
  | nil => exact ⟨[], text, .nil⟩
  | cons n ns ih =>
    obtain ⟨out, text', h⟩ := ih (n.render text).s
    exact ⟨_, text', Run.cons ⟨rfl, rfl⟩ h⟩

theorem mem_accepted {ns : List Notification} {key : List UInt8} :
    key ∈ accepted ns ↔ (∃ n ∈ ns, n.key = key) ∧ Accepted key := by
  rw [accepted, List.mem_filter, List.mem_map, decide_eq_true_iff]

/-- The stream is the lines of the accepted keys. -/
theorem run_out {text text' : Mem} {ns : List Notification} {out : List UInt8}
    (h : Run Step text ns out text') (hlen : ∀ n ∈ ns, n.key.length ≤ 4000) :
    out = Lines.text 10 lineText (accepted ns) := by
  induction h with
  | nil => rfl
  | @snoc ns out t n out' u hrun hstep ih =>
    have hn := step_out hstep (hlen n (List.mem_append_right _ List.mem_cons_self))
    rw [ih fun m hm => hlen m (List.mem_append_left _ hm), hn]
    simp only [accepted, Lines.text, List.map_append, List.map_cons, List.map_nil,
      List.filter_append, List.flatMap_append]
    split_ifs with ha
    · rw [List.filter_cons, if_pos (decide_eq_true ha), List.filter_nil, List.flatMap_singleton]
    · rw [List.filter_cons, if_neg (by simpa using ha), List.filter_nil, List.flatMap_nil]

theorem clean_accepted {ns : List Notification} (h : ∀ n ∈ ns, Clean n.key) :
    ∀ key ∈ accepted ns, 10 ∉ lineText key ∧ readLine (lineText key) = some key := by
  intro key hkey
  obtain ⟨⟨n, hn, rfl⟩, ha⟩ := mem_accepted.1 hkey
  exact (h n hn).readLine ha

/-- The keys are read back off their stream exactly if they are clean. -/
theorem readBack_eq_iff {text text' : Mem} {ns : List Notification} {out : List UInt8}
    (h : Run Step text ns out text') (hlen : ∀ n ∈ ns, n.key.length ≤ 4000) :
    Lines.readBack 10 readLine out = accepted ns ↔ ∀ n ∈ ns, Clean n.key := by
  rw [run_out h hlen, readBack_keys fun key hkey => (mem_accepted.1 hkey).2]
  constructor
  · exact fun hclean n hn ha => hclean n.key (mem_accepted.2 ⟨⟨n, hn, rfl⟩, ha⟩) ha
  · intro hclean key hkey
    obtain ⟨⟨n, hn, rfl⟩, -⟩ := mem_accepted.1 hkey
    exact hclean n hn

/-- **The stream and its events.**  For every sequence of keys of at most 4000 bytes, the keys
rendered are the records among them and can be read back off the stream, exactly if all keys
are clean; and two sequences of clean keys with the same stream have accepted the same keys. -/
theorem stream_determines {text text' : Mem} {ns : List Notification} {out : List UInt8}
    (h : Run Step text ns out text') (hlen : ∀ n ∈ ns, n.key.length ≤ 4000) :
    (((∀ n ∈ ns, ∀ text, 0 < (n.render text).len ↔ Documented n.key) ∧
        Lines.readBack 10 readLine out = accepted ns) ↔ ∀ n ∈ ns, Clean n.key) ∧
      ∀ text₂ text₂' ns₂, Run Step text₂ ns₂ out text₂' → (∀ n ∈ ns₂, n.key.length ≤ 4000) →
        (∀ n ∈ ns, Clean n.key) → (∀ n ∈ ns₂, Clean n.key) → accepted ns = accepted ns₂ := by
  constructor
  · rw [readBack_eq_iff h hlen]
    constructor
    · exact fun hc => hc.2
    · intro hclean
      refine ⟨fun n hn text => ?_, hclean⟩
      rw [rendered_iff text (hlen n hn)]
      exact (hclean n hn).accepted_iff
  · intro text₂ text₂' ns₂ h₂ hlen₂ hclean hclean₂
    have heq := (run_out h hlen).symm.trans (run_out h₂ hlen₂)
    exact Lines.text_injective 10 (clean_accepted hclean) (clean_accepted hclean₂) heq

/-- The notification of a key that was added to. -/
def added (key : List UInt8) : Notification := ⟨some (ascii "sadd"), 4, key⟩

/-- A record of the current state and one of the history: the first is read back. -/
theorem stream_determines_node :
    ∃ out text', Run Step .zeros [added (ascii "/n/a"), added (ascii "1379331591/n/a")] out text' ∧
      Lines.readBack 10 readLine out = [ascii "/n/a"] := by
  obtain ⟨out, text', h⟩ :=
    exists_run [added (ascii "/n/a"), added (ascii "1379331591/n/a")] .zeros
  refine ⟨out, text', h, ?_⟩
  rw [((stream_determines h (by decide)).1.2 (by decide)).2]
  decide

/-- A key of none of the forms is rendered, and a name with a newline is rendered as the messages
of two other keys. -/
theorem stream_ambiguous :
    (0 < ((added (ascii "xnyz")).render .zeros).len ∧ ¬ Documented (ascii "xnyz")) ∧
      ∃ out text₁ text₂, Run Step .zeros [added (ascii "/n/a\nNew node b")] out text₁ ∧
        Run Step .zeros [added (ascii "/n/a"), added (ascii "/n/b")] out text₂ ∧
        accepted [added (ascii "/n/a\nNew node b")] = [ascii "/n/a\nNew node b"] ∧
        accepted [added (ascii "/n/a"), added (ascii "/n/b")] = [ascii "/n/a", ascii "/n/b"] := by
  refine ⟨⟨(rendered_iff .zeros (by decide)).2 (by decide), ?_⟩, ?_⟩
  · rw [documented_iff]
    decide
  · obtain ⟨out₁, text₁, h₁⟩ := exists_run [added (ascii "/n/a\nNew node b")] .zeros
    obtain ⟨out₂, text₂, h₂⟩ := exists_run [added (ascii "/n/a"), added (ascii "/n/b")] .zeros
    have hout : out₁ = out₂ := by
      rw [run_out h₁ (by decide), run_out h₂ (by decide)]
      decide
    rw [hout] at h₁
    exact ⟨out₂, text₁, text₂, h₁, h₂, by decide, by decide⟩

end ModNet
