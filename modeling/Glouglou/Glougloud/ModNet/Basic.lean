import Glouglou.Glougloud.Viz.Basic

/-!
# glougloud: the network module

`ggdmodviz_text_get` of `glougloud_mod_1_net.c`, which renders the key of a notification as a
line of text in a static buffer.  The length it returns is that of `snprintf`, which counts what
the buffer had no room for; `text_length_iff` says for which keys it is the length of the text
that is there.
-/

open CInt CString Redis Viz

namespace ModNet

def GLOUGLOUD_MOD_NET_ID : ℤ := 1

/-- `sizeof(text)` -/
def textSize : ℕ := 4096

/-- `ggdmodviz_text_get`, with the static `text` as the previous calls left it. -/
def ggdmodviz_text_get (text : Mem) (_op : Option (List UInt8)) (_op_len : ℤ)
    (target : List UInt8) (target_len : ℤ) : Rendered :=
  let text := text.write 0 [0]
  if target_len < 4 then ⟨-1, text⟩
  else if target.getD 1 0 = 110 then
    -- 'n'
    let r := snprintf text 0 textSize (ascii "New node " ++ view (target.drop 3) ++ [10])
    ⟨r.1, r.2⟩
  else if target.getD 1 0 = 78 then
    -- 'N'
    let r := snprintf text 0 textSize (ascii "Delete node " ++ view (target.drop 3) ++ [10])
    ⟨r.1, r.2⟩
  else ⟨-1, text⟩

/-- The module as the viz server has it loaded. -/
def netModule (text : Mem) : Ggdmodviz where
  id := GLOUGLOUD_MOD_NET_ID
  ggdmodviz_text_get := fun op op_len target target_len =>
    ggdmodviz_text_get text op op_len (target.getD []) target_len

/-! ### The line of a key -/

/-- What stands before the name. -/
def verb (c : UInt8) : Option (List UInt8) :=
  if c = 110 then some (ascii "New node ")
  else if c = 78 then some (ascii "Delete node ")
  else none

/-- The line that a key is rendered as. -/
def line (target : List UInt8) : Option (List UInt8) :=
  (verb (target.getD 1 0)).map fun v => v ++ view (target.drop 3) ++ [10]

/-- A key of the two kinds is rendered as its line, any other key is refused. -/
theorem text_get_eq (text : Mem) (op : Option (List UInt8)) (op_len : ℤ) (target : List UInt8)
    {target_len : ℤ} (h : ¬ target_len < 4) :
    ggdmodviz_text_get text op op_len target target_len =
      match line target with
      | none => ⟨-1, text.write 0 [0]⟩
      | some l =>
        ⟨(snprintf (text.write 0 [0]) 0 textSize l).1,
          (snprintf (text.write 0 [0]) 0 textSize l).2⟩ := by
  simp only [ggdmodviz_text_get, line, verb]
  rw [if_neg h]
  by_cases h1 : target.getD 1 0 = 110
  · rw [if_pos h1, if_pos h1]
    rfl
  · rw [if_neg h1, if_neg h1]
    by_cases h2 : target.getD 1 0 = 78
    · rw [if_pos h2, if_pos h2]
      rfl
    · rw [if_neg h2, if_neg h2]
      rfl

/-- A key too short is refused. -/
theorem text_get_short (text : Mem) (op : Option (List UInt8)) (op_len : ℤ)
    (target : List UInt8) {target_len : ℤ} (h : target_len < 4) :
    ggdmodviz_text_get text op op_len target target_len = ⟨-1, text.write 0 [0]⟩ :=
  if_pos h

theorem verb_no_zero {c : UInt8} {v : List UInt8} (h : verb c = some v) : 0 ∉ v := by
  unfold verb at h
  split_ifs at h
  · cases h
    decide
  · cases h
    decide

/-- A line has no terminator in it. -/
theorem line_no_zero {target l : List UInt8} (h : line target = some l) : 0 ∉ l := by
  obtain ⟨v, hv, rfl⟩ := Option.map_eq_some_iff.1 h
  simp only [List.mem_append, List.mem_singleton, not_or]
  exact ⟨⟨verb_no_zero hv, zero_not_mem_view _⟩, by decide⟩

/-! ### The text and its length -/

/-- The text that the call left in its buffer. -/
def stored (r : Rendered) : List UInt8 := view (r.s.read 0 textSize)

/-- A positive result is the length of the text that is there, in front of its terminator. -/
def Agrees (r : Rendered) : Prop :=
  0 < r.len → r.len = (stored r).length ∧ (stored r).length < textSize

/-- Whatever else it does, a notification of this key writes the text that is there. -/
def WritesStored (text : Mem) (target : List UInt8) : Prop :=
  ∀ viz reply locals p evs, viz.mods = [netModule text] →
    redis_parse_keyspace_notification reply locals = .ok p → p.ntf.ntf_target = some target →
    redis_cb_notification viz (some reply) locals = .ok evs →
    ∀ bev data, Ev.bufferevent_write bev data ∈ evs →
      data = stored (ggdmodviz_text_get text p.ntf.ntf_op p.ntf.ntf_op_len target
        (int32 target.length))

/-- The line of the key, if it has one, fits the buffer with its terminator, or has no length as
an `int`.  The length of the key is one from 4 on, or there is no line. -/
def LineFits (target : List UInt8) : Prop :=
  ¬ int32 target.length < 4 → ∀ l, line target = some l → l.length < textSize ∨ INT_MAX < l.length

/-- The line of a created node is ten bytes longer than its name, that of a deleted one
thirteen. -/
theorem length_line {target l : List UInt8} (h : line target = some l) :
    l.length = (view (target.drop 3)).length + if target.getD 1 0 = 110 then 10 else 13 := by
  obtain ⟨v, hv, rfl⟩ := Option.map_eq_some_iff.1 h
  have hlen : v.length + 1 = if target.getD 1 0 = 110 then 10 else 13 := by
    unfold verb at hv
    split_ifs at hv ⊢
    · cases hv
      decide
    · cases hv
      decide
  rw [← hlen, List.length_append, List.length_append, List.length_singleton]
  omega

/-- The result agrees with the text exactly if the line fits. -/
theorem agrees_iff (text : Mem) (op : Option (List UInt8)) (op_len : ℤ) (target : List UInt8) :
    Agrees (ggdmodviz_text_get text op op_len target (int32 target.length)) ↔
      LineFits target := by
  unfold Agrees LineFits
  by_cases h4 : int32 target.length < 4
  · rw [text_get_short text op op_len target h4]
    exact iff_of_true (fun h => absurd h (by norm_num)) fun h => absurd h4 h
  rw [text_get_eq text op op_len target h4]
  rcases hl : line target with _ | l
  · exact iff_of_true (fun h => absurd h (by norm_num)) fun _ l h => by cases h
  · have hpos : 0 < l.length := by
      obtain ⟨v, -, rfl⟩ := Option.map_eq_some_iff.1 hl
      simp
    simp only [stored, view_snprintf _ 0 (show 0 < textSize by decide) (line_no_zero hl),
      List.length_take]
    unfold snprintf textSize
    by_cases hmax : INT_MAX < l.length
    · rw [if_pos hmax]
      refine iff_of_true (fun h => absurd h (by norm_num)) fun _ l' hl' => .inr ?_
      cases hl'
      exact hmax
    · rw [if_neg hmax]
      constructor
      · intro h _ l' hl'
        cases hl'
        have hlen := (h (by omega)).1
        omega
      · intro h _
        rcases h h4 l rfl with h | h
        · exact ⟨by omega, by omega⟩
        · exact absurd h hmax

/-- What a module writes to a client is what it rendered. -/
theorem notifyClient_write {ntf : Ntf} {m : Ggdmodviz} {cli : GgdvizCli} {bev : ℕ}
    {data : List UInt8} (h : Ev.bufferevent_write bev data ∈ notifyClient ntf m cli) :
    0 < (m.render ntf).len ∧ data = (m.render ntf).s.read 0 (m.render ntf).len.toNat := by
  unfold notifyClient at h
  rcases htype : cli.type with _ | _
  · simp only [htype] at h
    split_ifs at h with hlen
    · cases h
    · cases List.mem_singleton.1 h
      exact ⟨not_le.1 hlen, rfl⟩
  · simp only [htype] at h
    cases h

theorem length_stored_le (r : Rendered) : (stored r).length ≤ textSize := by
  have hle : (stored r).length ≤ (r.s.read 0 textSize).length :=
    (List.takeWhile_sublist _).length_le
  rwa [Mem.length_read] at hle

/-- The bytes of a result that agrees are the text. -/
theorem read_of_agrees {r : Rendered} (h : Agrees r) (hpos : 0 < r.len) :
    r.s.read 0 r.len.toNat = stored r := by
  rw [(h hpos).1, Int.toNat_natCast, ← Mem.take_read _ _ (length_stored_le r)]
  exact take_length_view _

/-- A result that agrees is what the server writes. -/
theorem writesStored_of_agrees {text : Mem} {target : List UInt8}
    (h : ∀ op op_len,
      Agrees (ggdmodviz_text_get text op op_len target (int32 target.length))) :
    WritesStored text target := by
  intro viz reply locals p evs hmods hp ht hevs bev data hmem
  unfold redis_cb_notification at hevs
  simp only [hp] at hevs
  by_cases hret : p.ret < 4
  · rw [if_pos hret] at hevs
    cases hevs
    cases hmem
  · rw [if_neg hret, hmods] at hevs
    cases hevs
    have hrender : (netModule text).render p.ntf = ggdmodviz_text_get text p.ntf.ntf_op
        p.ntf.ntf_op_len target (int32 target.length) := by
      unfold Ggdmodviz.render netModule
      rw [parse_target hp hret target ht, ht]
      simp only [Option.getD_some]
    rw [List.flatMap_singleton] at hmem
    split_ifs at hmem
    · cases hmem
    obtain ⟨cli, -, hcli⟩ := List.mem_flatMap.1 hmem
    obtain ⟨hpos, rfl⟩ := notifyClient_write hcli
    rw [hrender] at hpos ⊢
    exact read_of_agrees (h _ _) hpos

/-- **Length of the text.**  Whatever the operation, and whatever is in the buffer, the length
returned for a key is that of the text in the buffer, and the server writes this text and
nothing behind it, exactly if the line of the key fits. -/
theorem text_length_iff (text : Mem) (target : List UInt8) :
    ((∀ op op_len, Agrees (ggdmodviz_text_get text op op_len target (int32 target.length))) ∧
      WritesStored text target) ↔ LineFits target := by
  constructor
  · rintro ⟨h, -⟩
    exact (agrees_iff text none 0 target).1 (h none 0)
  · intro h
    have hagree := fun op op_len => (agrees_iff text op op_len target).2 h
    exact ⟨hagree, writesStored_of_agrees hagree⟩

/-- A key with this name. -/
def createdKey (name : List UInt8) : List UInt8 := ascii "/n/" ++ name

theorem length_createdKey (name : List UInt8) :
    (createdKey name).length = name.length + 3 := by
  rw [createdKey, List.length_append, show (ascii "/n/").length = 3 by decide, Nat.add_comm]

theorem line_createdKey {name : List UInt8} (h : 0 ∉ name) :
    line (createdKey name) = some (ascii "New node " ++ name ++ [10]) := by
  have hhead : createdKey name = 47 :: 110 :: 47 :: name := rfl
  rw [line, hhead]
  simp only [List.drop_succ_cons, List.drop_zero, view_of_no_zero h]
  rfl

/-- A name of 4086 bytes is one too long: its length is returned, but its last byte is not in the
buffer. -/
theorem text_length_long :
    ¬ Agrees (ggdmodviz_text_get .zeros none 0 (createdKey (List.replicate 4086 97))
      (int32 (createdKey (List.replicate 4086 97)).length)) := by
  have hname : 0 ∉ List.replicate 4086 (97 : UInt8) := by
    intro hm
    exact absurd (List.eq_of_mem_replicate hm) (by decide)
  have hlen : int32 (createdKey (List.replicate 4086 97)).length = 4089 := by
    rw [length_createdKey, List.length_replicate]
    exact int32_of_mem (by norm_num) (by decide)
  rw [agrees_iff]
  intro h
  have hfit := h (by rw [hlen]; norm_num) _ (line_createdKey hname)
  rw [List.length_append, List.length_append, List.length_replicate,
    show (ascii "New node ").length = 9 by decide] at hfit
  exact absurd hfit (by decide)

end ModNet
