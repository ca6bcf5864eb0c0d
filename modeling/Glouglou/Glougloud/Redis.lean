import Glouglou.Lib.CString
import Glouglou.Lib.Memory

/-!
# glougloud: keyspace notifications of redis

`redis_parse_keyspace_notification` of `redis.c`.  A `char *` of a reply is the list of bytes at
it; the tokens of the channel name are cut off by `strtok` one after another, so each call
works on what the previous one left.

* `RedisReply`: the reply tree of hiredis;
* `Ntf`: the eight variables the caller passes by address;
* `parseChannel`, `parseElement`, `parseElements`: one channel name, one element, the loop;
* `Opens`, `Reading`: how the four `strtok` calls cut a channel name, and in no other way;
* `parseChannel_opened`, `cut`: what the parser does with a channel name that has an event type,
  and how it can return;
* `parse_sound_iff`: the channel names on which the answer names the channel.
-/

open CInt CString

namespace Redis

/-- `REDIS_REPLY_*` -/
inductive ReplyType
  | string
  | array
  | integer
  | nil
  | status
  | error
  deriving DecidableEq

/-- `redisReply`: `str` is the `len` bytes before the terminator hiredis adds. -/
structure RedisReply where
  type : ReplyType
  str : List UInt8
  element : List RedisReply

/-- What the caller learns of a notification; `none` is the `NULL` pointer. -/
structure Ntf where
  ntf_type : Option (List UInt8)
  ntf_pattern : Option (List UInt8)
  ntf_event_type : Option (List UInt8)
  ntf_db : ℤ
  ntf_op : Option (List UInt8)
  ntf_op_len : ℤ
  ntf_target : Option (List UInt8)
  ntf_target_len : ℤ

/-- Where the behaviour of the parser is undefined. -/
inductive Fault
  /-- `r->str + 2` is past the terminator -/
  | overread
  /-- `strlen` and `memcpy` of a `NULL` token -/
  | nullToken
  /-- `memcpy` of a token past the end of its static buffer -/
  | overrun

/-- The result: the `int` returned, the caller's variables, the copies made to the static
buffers, in order. -/
structure Parsed where
  ret : ℤ
  ntf : Ntf
  copies : List Memcpy

/-- `sizeof(l_ntf_event_type)` and `sizeof(l_ntf_op)` -/
def bufSize : ℕ := 64

/-- The `memcpy` of a token with its terminator. -/
def copyToken (tmp : List UInt8) : Memcpy := ⟨bufSize, tmp.length + 1⟩

theorem copyToken_fits {tmp : List UInt8} : (copyToken tmp).Fits ↔ tmp.length ≤ 63 :=
  Nat.succ_le_succ_iff

/-- `case 2` of the inner switch, the channel name: `some ret` is an early return. -/
def parseChannel (str : List UInt8) (ntf : Ntf) :
    Except Fault (Option ℤ × Ntf × List Memcpy) :=
  if str.length < 2 then .error .overread
  else
    match strtok (ascii "@") (view (str.drop 2)) with
    | (none, _) => .error .nullToken
    | (some event_type, save) =>
      if ¬ (copyToken event_type).Fits then .error .overrun
      else
        let ntf := { ntf with ntf_event_type := some event_type }
        match strtok (ascii "_") save with
        | (none, _) => .ok (some (-3), ntf, [copyToken event_type])
        | (some db, save) =>
          let ntf := { ntf with ntf_db := atoi db }
          if atoi db < 0 then .ok (some (-4), ntf, [copyToken event_type])
          else
            -- what stands between the database and the `:` is not looked at
            match strtok (ascii ":") save with
            | (none, _) => .ok (some (-5), ntf, [copyToken event_type])
            | (some _, save) =>
              match strtok [] save with
              | (none, _) => .ok (some (-6), ntf, [copyToken event_type])
              | (some op, _) =>
                if ¬ (copyToken op).Fits then .error .overrun
                else
                  .ok (none, { ntf with ntf_op := some op, ntf_op_len := int32 op.length },
                    [copyToken event_type, copyToken op])

/-- The body of the loop: only strings count, each according to its place. -/
def parseElement (i : ℕ) (r : RedisReply) (ntf : Ntf) :
    Except Fault (Option ℤ × Ntf × List Memcpy) :=
  if r.type = .string then
    match i with
    | 0 => .ok (none, { ntf with ntf_type := some r.str }, [])
    | 1 => .ok (none, { ntf with ntf_pattern := some r.str }, [])
    | 2 => parseChannel r.str ntf
    | 3 =>
      .ok (none, { ntf with ntf_target := some r.str, ntf_target_len := int32 r.str.length }, [])
    | _ => .ok (none, ntf, [])
  else .ok (none, ntf, [])

/-- The loop over the elements from number `i` on. -/
def parseElements (i : ℕ) : List RedisReply → Ntf → Except Fault (Option ℤ × Ntf × List Memcpy)
  | [], ntf => .ok (none, ntf, [])
  | r :: rs, ntf =>
    match parseElement i r ntf with
    | .error e => .error e
    | .ok (some ret, ntf, copies) => .ok (some ret, ntf, copies)
    | .ok (none, ntf, copies) =>
      match parseElements (i + 1) rs ntf with
      | .error e => .error e
      | .ok (ret, ntf, copies') => .ok (ret, ntf, copies ++ copies')

/-- The assignments before the loop. -/
def Ntf.clear (ntf : Ntf) : Ntf :=
  { ntf with
    ntf_type := none, ntf_pattern := none, ntf_event_type := none, ntf_op := none,
    ntf_target := none, ntf_db := -1 }

/-- `redis_parse_keyspace_notification`, with the caller's variables as they were. -/
def redis_parse_keyspace_notification (reply : RedisReply) (ntf : Ntf) : Except Fault Parsed :=
  if reply.type ≠ .array then .ok ⟨-1, ntf, []⟩
  else if reply.element.length < 1 then .ok ⟨-2, ntf, []⟩
  else
    match parseElements 0 reply.element ntf.clear with
    | .error e => .error e
    | .ok (some ret, ntf, copies) => .ok ⟨ret, ntf, copies⟩
    | .ok (none, ntf, copies) => .ok ⟨int32 reply.element.length, ntf, copies⟩

/-! ### How a channel name is cut -/

/-- The four `strtok` calls can cut `rest`, what follows the `@`, into the database `db`, a
token that is thrown away and the operation `op`: each of the first two tokens may have a run
of its delimiter before it. -/
structure Reading (rest : List UInt8) (a : ℕ) (db : List UInt8) (b : ℕ) (junk op : List UInt8) :
    Prop where
  cut : view rest = List.replicate a 95 ++ db ++ 95 :: (List.replicate b 58 ++ junk ++ 58 :: op)
  db_ne : db ≠ []
  db_free : 95 ∉ db
  junk_ne : junk ≠ []
  junk_free : 58 ∉ junk
  op_ne : op ≠ []

/-- The variables after a channel name read so. -/
def Ntf.read (ntf : Ntf) (event_type db op : List UInt8) : Ntf :=
  { ntf with
    ntf_event_type := some event_type, ntf_db := atoi db, ntf_op := some op,
    ntf_op_len := int32 op.length }

theorem ascii_at : ascii "@" = [64] := by decide

theorem ascii_underscore : ascii "_" = [95] := by decide

theorem ascii_underscores : ascii "__" = [95, 95] := by decide

theorem ascii_marker : ascii "__:" = [95, 95, 58] := by decide

theorem ascii_colon : ascii ":" = [58] := by decide

/-- A run of one delimiter. -/
theorem eq_replicate_of_delim {c : UInt8} {pre : List UInt8} (h : ∀ x ∈ pre, x ∈ [c]) :
    pre = List.replicate pre.length c :=
  List.eq_replicate_iff.2 ⟨rfl, fun x hx => by simpa using h x hx⟩

/-- A token before a single delimiter, after a run of it. -/
theorem strtok_replicate {c : UInt8} {t r : List UInt8} (n : ℕ) (hne : t ≠ []) (hc : c ∉ t) :
    strtok [c] (List.replicate n c ++ t ++ c :: r) = (some t, r) := by
  refine strtok_append (fun x hx => ?_) hne (fun x hx hm => ?_) List.mem_cons_self
  · rw [List.eq_of_mem_replicate hx]
    exact List.mem_cons_self
  · rw [List.mem_singleton] at hm
    exact hc (hm ▸ hx)

/-- The event type is cut off first. -/
theorem strtok_event_type {event_type : List UInt8} (rest : List UInt8) (hne : event_type ≠ [])
    (h64 : 64 ∉ event_type) (h0 : 0 ∉ event_type) :
    strtok (ascii "@") (view (([95, 95] ++ event_type ++ 64 :: rest).drop 2)) =
      (some event_type, view rest) := by
  have hmem : 0 ∉ event_type ++ [64] := by simp [h0]
  have hsplit : ([95, 95] ++ event_type ++ 64 :: rest).drop 2 = event_type ++ [64] ++ rest := by
    simp
  rw [hsplit, view_append hmem, List.append_assoc, ascii_at]
  exact strtok_replicate 0 hne h64

/-- The database is cut off next. -/
theorem Reading.strtok_db {rest db junk op : List UInt8} {a b : ℕ}
    (h : Reading rest a db b junk op) : strtok (ascii "_") (view rest) =
      (some db, List.replicate b 58 ++ junk ++ 58 :: op) := by
  rw [h.cut, ascii_underscore]
  exact strtok_replicate a h.db_ne h.db_free

/-- The third token ends before the operation. -/
theorem Reading.strtok_junk {rest db junk op : List UInt8} {a b : ℕ}
    (h : Reading rest a db b junk op) :
    strtok (ascii ":") (List.replicate b 58 ++ junk ++ 58 :: op) = (some junk, op) := by
  rw [ascii_colon]
  exact strtok_replicate b h.junk_ne h.junk_free

/-- What the calls cut off is a reading. -/
theorem Reading.of_strtok {rest db save junk op : List UInt8}
    (h₂ : strtok (ascii "_") (view rest) = (some db, save))
    (h₃ : strtok (ascii ":") save = (some junk, op)) (hop : op ≠ []) :
    ∃ a b, Reading rest a db b junk op := by
  -- a call that left something stopped at a delimiter
  obtain ⟨hne₂, hfree₂, pre, hpre, hcut⟩ := strtok_some h₂
  obtain ⟨hne₃, hfree₃, pre', hpre', hcut'⟩ := strtok_some h₃
  rw [ascii_underscore] at hfree₂ hpre hcut
  rw [ascii_colon] at hfree₃ hpre' hcut'
  obtain ⟨c', hc', rfl⟩ : ∃ c ∈ [(58 : UInt8)], save = pre' ++ junk ++ c :: op := by
    rcases hcut' with ⟨-, hnil⟩ | hcut'
    · exact absurd hnil hop
    · exact hcut'
  obtain ⟨c, hc, hrest⟩ : ∃ c ∈ [(95 : UInt8)],
      view rest = pre ++ db ++ c :: (pre' ++ junk ++ c' :: op) := by
    rcases hcut with ⟨-, hnil⟩ | hcut
    · simp at hnil
    · exact hcut
  rw [List.mem_singleton] at hc hc'
  subst hc hc'
  rw [eq_replicate_of_delim hpre, eq_replicate_of_delim hpre'] at hrest
  refine ⟨_, _, hrest, hne₂, fun hm => ?_, hne₃, fun hm => ?_, hop⟩
  · exact hfree₂ _ hm (by simp)
  · exact hfree₃ _ hm (by simp)

/-- There is one way to read a channel name. -/
theorem Reading.unique {rest db db' junk junk' op op' : List UInt8} {a a' b b' : ℕ}
    (h : Reading rest a db b junk op) (h' : Reading rest a' db' b' junk' op') :
    a = a' ∧ db = db' ∧ b = b' ∧ junk = junk' ∧ op = op' := by
  have hdb := h.strtok_db.symm.trans h'.strtok_db
  simp only [Prod.mk.injEq, Option.some.injEq] at hdb
  obtain ⟨rfl, htail⟩ := hdb
  have hjunk := h.strtok_junk
  rw [htail, h'.strtok_junk] at hjunk
  simp only [Prod.mk.injEq, Option.some.injEq] at hjunk
  obtain ⟨rfl, rfl⟩ := hjunk
  have hcut := congrArg List.length (h.cut.symm.trans h'.cut)
  have htail := congrArg List.length htail
  simp only [List.length_append, List.length_replicate, List.length_cons] at hcut htail
  refine ⟨?_, rfl, ?_, rfl, rfl⟩ <;> omega

/-- What follows the first two bytes of a string is an event type and, after an `@`, `rest`. -/
def Opens (str event_type rest : List UInt8) : Prop :=
  event_type ≠ [] ∧ 64 ∉ event_type ∧ ∃ k,
    (view (str.drop 2) = List.replicate k 64 ++ event_type ∧ rest = []) ∨
      view (str.drop 2) = List.replicate k 64 ++ event_type ++ 64 :: rest

/-- The first call of `strtok`. -/
theorem opens_iff {str event_type rest : List UInt8} : Opens str event_type rest ↔
    strtok (ascii "@") (view (str.drop 2)) = (some event_type, rest) := by
  rw [ascii_at]
  constructor
  · rintro ⟨hne, hfree, k, ⟨hcut, rfl⟩ | hcut⟩
    · rw [hcut]
      refine strtok_last (fun x hx => ?_) hne fun x hx hm => ?_
      · rw [List.eq_of_mem_replicate hx]
        exact List.mem_cons_self
      · rw [List.mem_singleton] at hm
        exact hfree (hm ▸ hx)
    · rw [hcut]
      exact strtok_replicate k hne hfree
  · intro h
    obtain ⟨hne, hfree, pre, hpre, hcut⟩ := strtok_some h
    refine ⟨hne, fun hm => hfree _ hm List.mem_cons_self, pre.length, ?_⟩
    rw [← eq_replicate_of_delim hpre]
    rcases hcut with hcut | ⟨c, hc, hcut⟩
    · exact .inl hcut
    · rw [List.mem_singleton] at hc
      subst hc
      exact .inr hcut

/-- What is left of a C string is one. -/
theorem view_rest {str event_type rest : List UInt8} (h : Opens str event_type rest) :
    view rest = rest := by
  refine view_of_no_zero fun hm => zero_not_mem_view (str.drop 2) ?_
  obtain ⟨-, -, k, ⟨-, rfl⟩ | hcut⟩ := h
  · cases hm
  · rw [hcut]
    simp [hm]

/-- What the next two calls make of the rest. -/
theorem Reading.calls {str event_type rest db junk op : List UInt8} {a b : ℕ}
    (h : Opens str event_type rest) (hr : Reading rest a db b junk op) :
    ∃ save, strtok (ascii "_") rest = (some db, save) ∧
      strtok (ascii ":") save = (some junk, op) := by
  have hdb := hr.strtok_db
  rw [view_rest h] at hdb
  exact ⟨_, hdb, hr.strtok_junk⟩

/-- A channel name with an event type: its rest can be cut, and then the operation is copied, or
it is refused. -/
theorem parseChannel_opened {str event_type rest : List UInt8} (hlen : 2 ≤ str.length)
    (h : Opens str event_type rest) (htype : event_type.length ≤ 63) (ntf : Ntf) :
    (∃ a db b junk op, Reading rest a db b junk op ∧ 0 ≤ atoi db ∧
      parseChannel str ntf =
        if ¬ (copyToken op).Fits then .error .overrun
        else .ok (none, ntf.read event_type db op, [copyToken event_type, copyToken op])) ∨
    ((∀ a db b junk op, Reading rest a db b junk op → ¬ 0 ≤ atoi db) ∧
      ∃ ret ntf', ret < 0 ∧
        parseChannel str ntf = .ok (some ret, ntf', [copyToken event_type])) := by
  unfold parseChannel
  rw [if_neg (by omega), opens_iff.1 h]
  simp only
  rw [if_neg (not_not.2 (copyToken_fits.2 htype))]
  -- any reading is what the second and the third call make of the rest
  rcases h₂ : strtok (ascii "_") rest with ⟨_ | db, save⟩
  · refine .inr ⟨fun a db b junk op hr => ?_, -3, _, by norm_num, rfl⟩
    obtain ⟨_, hdb, -⟩ := hr.calls h
    cases h₂.symm.trans hdb
  simp only
  by_cases hdb : atoi db < 0
  · rw [if_pos hdb]
    refine .inr ⟨fun a db' b junk op hr => ?_, -4, _, by norm_num, rfl⟩
    obtain ⟨_, hdb', -⟩ := hr.calls h
    cases h₂.symm.trans hdb'
    exact not_le.2 hdb
  rw [if_neg hdb]
  rcases h₃ : strtok (ascii ":") save with ⟨_ | junk, op⟩
  · refine .inr ⟨fun a db' b junk op hr => ?_, -5, _, by norm_num, rfl⟩
    obtain ⟨_, hdb', hjunk⟩ := hr.calls h
    cases h₂.symm.trans hdb'
    cases h₃.symm.trans hjunk
  simp only [strtok_nil]
  by_cases hop : op = []
  · rw [if_pos hop]
    refine .inr ⟨fun a db' b junk' op' hr => ?_, -6, _, by norm_num, rfl⟩
    obtain ⟨_, hdb', hjunk⟩ := hr.calls h
    cases h₂.symm.trans hdb'
    cases h₃.symm.trans hjunk
    exact absurd hop hr.op_ne
  · rw [if_neg hop]
    obtain ⟨a, b, hr⟩ := Reading.of_strtok ((view_rest h).symm ▸ h₂) h₃ hop
    exact .inl ⟨a, db, b, junk, op, hr, not_lt.1 hdb, rfl⟩

/-- A channel name that can be read, with an operation that fits its buffer, is read so. -/
theorem parse_channel_of_reading {str event_type rest db junk op : List UInt8} {a b : ℕ}
    (hlen : 2 ≤ str.length) (h : Opens str event_type rest) (htype : event_type.length ≤ 63)
    (hr : Reading rest a db b junk op) (hdb : 0 ≤ atoi db) (hop : op.length ≤ 63) (ntf : Ntf) :
    parseChannel str ntf =
      .ok (none, ntf.read event_type db op, [copyToken event_type, copyToken op]) := by
  rcases parseChannel_opened hlen h htype ntf with ⟨a', db', b', junk', op', hr', -, hp⟩ | ⟨hno, -⟩
  · obtain ⟨-, rfl, -, -, rfl⟩ := hr.unique hr'
    rw [hp, if_neg (not_not.2 (copyToken_fits.2 hop))]
  · exact absurd hdb (hno a db b junk op hr)

/-- How `parseChannel` can return: a call finds no token, or the database is negative, or all
four calls find theirs.  Indices: the early return, the variables and the copies. -/
inductive Cut (str : List UInt8) (ntf : Ntf) : Option ℤ → Ntf → List Memcpy → Prop
  | early {event_type save : List UInt8} {ret : ℤ} (db : ℤ) (hret : ret < 0)
      (h₁ : strtok (ascii "@") (view (str.drop 2)) = (some event_type, save))
      (htype : event_type.length ≤ 63) :
      Cut str ntf (some ret) { ntf with ntf_event_type := some event_type, ntf_db := db }
        [copyToken event_type]
  | whole {event_type save db save' junk op : List UInt8}
      (h₁ : strtok (ascii "@") (view (str.drop 2)) = (some event_type, save))
      (htype : event_type.length ≤ 63)
      (h₂ : strtok (ascii "_") save = (some db, save')) (hdb : 0 ≤ atoi db)
      (h₃ : strtok (ascii ":") save' = (some junk, op)) (hop : op ≠ []) (hlen : op.length ≤ 63) :
      Cut str ntf none (ntf.read event_type db op) [copyToken event_type, copyToken op]

theorem cut {str : List UInt8} {ntf ntf' : Ntf} {ret : Option ℤ} {copies : List Memcpy}
    (h : parseChannel str ntf = .ok (ret, ntf', copies)) : Cut str ntf ret ntf' copies := by
  unfold parseChannel at h
  split_ifs at h
  -- the four calls, each of them on what the one before it left
  rcases h₁ : strtok (ascii "@") (view (str.drop 2)) with ⟨_ | event_type, save⟩
  · simp [h₁] at h
  by_cases hfit : (copyToken event_type).Fits
  swap
  · simp [h₁, hfit] at h
  have htype := copyToken_fits.1 hfit
  rcases h₂ : strtok (ascii "_") save with ⟨_ | db, save'⟩
  · simp only [h₁, hfit, not_true, if_false, h₂, Except.ok.injEq, Prod.mk.injEq] at h
    obtain ⟨rfl, rfl, rfl⟩ := h
    exact .early ntf.ntf_db (by norm_num) h₁ htype
  by_cases hdb : atoi db < 0
  · simp only [h₁, hfit, not_true, if_false, h₂, if_pos hdb, Except.ok.injEq, Prod.mk.injEq] at h
    obtain ⟨rfl, rfl, rfl⟩ := h
    exact .early _ (by norm_num) h₁ htype
  rcases h₃ : strtok (ascii ":") save' with ⟨_ | junk, op⟩
  · simp only [h₁, hfit, not_true, if_false, h₂, if_neg hdb, h₃, Except.ok.injEq,
      Prod.mk.injEq] at h
    obtain ⟨rfl, rfl, rfl⟩ := h
    exact .early _ (by norm_num) h₁ htype
  simp only [h₁, hfit, not_true, if_false, h₂, if_neg hdb, h₃, strtok_nil] at h
  by_cases hop : op = []
  · simp only [if_pos hop, Except.ok.injEq, Prod.mk.injEq] at h
    obtain ⟨rfl, rfl, rfl⟩ := h
    exact .early _ (by norm_num) h₁ htype
  · by_cases hfit' : (copyToken op).Fits
    · simp only [if_neg hop, hfit', not_true, if_false, Except.ok.injEq, Prod.mk.injEq] at h
      obtain ⟨rfl, rfl, rfl⟩ := h
      exact .whole h₁ htype h₂ (not_lt.1 hdb) h₃ hop (copyToken_fits.1 hfit')
    · simp [hop, hfit'] at h

/-- What was copied fits its buffer. -/
theorem parseChannel_copies {str : List UInt8} {ntf ntf' : Ntf} {ret : Option ℤ}
    {copies : List Memcpy} (h : parseChannel str ntf = .ok (ret, ntf', copies)) :
    ∀ c ∈ copies, c.Fits := by
  cases cut h with
  | early _ _ _ htype => exact List.forall_mem_singleton.2 (copyToken_fits.2 htype)
  | whole _ htype _ _ _ _ hlen =>
    exact List.forall_mem_cons.2 ⟨copyToken_fits.2 htype,
      List.forall_mem_singleton.2 (copyToken_fits.2 hlen)⟩

/-- An early return is an error code. -/
theorem parseChannel_early {str : List UInt8} {ntf ntf' : Ntf} {ret : ℤ} {copies : List Memcpy}
    (h : parseChannel str ntf = .ok (some ret, ntf', copies)) : ret < 0 := by
  cases cut h with
  | early _ hret => exact hret

/-! ### The key -/

/-- The length of the key is that of the key. -/
def Ntf.TargetLen (ntf : Ntf) : Prop :=
  ∀ target, ntf.ntf_target = some target → ntf.ntf_target_len = int32 target.length

/-- The channel name does not touch the key. -/
theorem parseChannel_target {str : List UInt8} {ntf ntf' : Ntf} {ret : Option ℤ}
    {copies : List Memcpy} (h : parseChannel str ntf = .ok (ret, ntf', copies)) :
    ntf'.ntf_target = ntf.ntf_target ∧ ntf'.ntf_target_len = ntf.ntf_target_len := by
  cases cut h with
  | early => exact ⟨rfl, rfl⟩
  | whole => exact ⟨rfl, rfl⟩

theorem parseElement_target {i : ℕ} {r : RedisReply} {ntf ntf' : Ntf} {ret : Option ℤ}
    {copies : List Memcpy} (hntf : ntf.TargetLen)
    (h : parseElement i r ntf = .ok (ret, ntf', copies)) : ntf'.TargetLen := by
  unfold parseElement at h
  split_ifs at h
  · split at h
    · cases h
      exact hntf
    · cases h
      exact hntf
    · obtain ⟨ht, hl⟩ := parseChannel_target h
      unfold Ntf.TargetLen
      rw [ht, hl]
      exact hntf
    · cases h
      intro target htarget
      cases htarget
      rfl
    · cases h
      exact hntf
  · cases h
    exact hntf

theorem parseElements_target {i : ℕ} {els : List RedisReply} {ntf ntf' : Ntf} {ret : Option ℤ}
    {copies : List Memcpy} (hntf : ntf.TargetLen)
    (h : parseElements i els ntf = .ok (ret, ntf', copies)) : ntf'.TargetLen := by
  induction els generalizing i ntf ret ntf' copies with
  | nil =>
    cases h
    exact hntf
  | cons r rs ih =>
    rw [parseElements] at h
    rcases h₁ : parseElement i r ntf with e | ⟨_ | ret₁, ntf₁, copies₁⟩
    · simp [h₁] at h
    · have hntf₁ := parseElement_target hntf h₁
      simp only [h₁] at h
      rcases h₂ : parseElements (i + 1) rs ntf₁ with e | ⟨ret₂, ntf₂, copies₂⟩
      · simp [h₂] at h
      · simp only [h₂, Except.ok.injEq, Prod.mk.injEq] at h
        rw [← h.2.1]
        exact ih hntf₁ h₂
    · simp only [h₁, Except.ok.injEq, Prod.mk.injEq] at h
      rw [← h.2.1]
      exact parseElement_target hntf h₁

/-- A notification that is not refused has a key with its length, if it has one. -/
theorem parse_target {reply : RedisReply} {ntf : Ntf} {p : Parsed}
    (h : redis_parse_keyspace_notification reply ntf = .ok p) (hret : ¬ p.ret < 4) :
    p.ntf.TargetLen := by
  have hclear : ntf.clear.TargetLen := by
    intro target htarget
    cases htarget
  unfold redis_parse_keyspace_notification at h
  split_ifs at h
  · cases h
    exact absurd (show (-1 : ℤ) < 4 by norm_num) hret
  · cases h
    exact absurd (show (-2 : ℤ) < 4 by norm_num) hret
  rcases hels : parseElements 0 reply.element ntf.clear with e | ⟨_ | ret, ntf', copies⟩
  · simp [hels] at h
  · simp only [hels, Except.ok.injEq] at h
    rw [← h]
    exact parseElements_target hclear hels
  · simp only [hels, Except.ok.injEq] at h
    rw [← h]
    exact parseElements_target hclear hels

/-! ### Notifications -/

/-- A string of a reply. -/
def RedisReply.ofString (str : List UInt8) : RedisReply := ⟨.string, str, []⟩

/-- What redis sends to a pattern subscriber: four strings. -/
def pmessage (type pattern channel target : List UInt8) : RedisReply :=
  ⟨.array, [], [.ofString type, .ofString pattern, .ofString channel, .ofString target]⟩

/-- The caller's variables once the channel name is reached. -/
def Ntf.opened (ntf : Ntf) (type pattern : List UInt8) : Ntf :=
  { ntf.clear with ntf_type := some type, ntf_pattern := some pattern }

/-- The caller's variables with the key set. -/
def Ntf.target (ntf : Ntf) (target : List UInt8) : Ntf :=
  { ntf with ntf_target := some target, ntf_target_len := int32 target.length }

/-- Of four strings the channel name decides. -/
theorem parse_pmessage (type pattern channel target : List UInt8) (ntf : Ntf) :
    redis_parse_keyspace_notification (pmessage type pattern channel target) ntf =
      match parseChannel channel (ntf.opened type pattern) with
      | .error e => .error e
      | .ok (some ret, ntf, copies) => .ok ⟨ret, ntf, copies⟩
      | .ok (none, ntf, copies) => .ok ⟨4, ntf.target target, copies⟩ := by
  unfold redis_parse_keyspace_notification pmessage
  rcases h : parseChannel channel (ntf.opened type pattern) with e | ⟨_ | ret, ntf', copies⟩ <;>
    simp only [Ntf.opened] at h <;>
    simp [parseElements, parseElement, RedisReply.ofString, Ntf.target, h,
      show int32 4 = 4 from rfl]

/-- A decimal numeral of value `d`. -/
def Numeral (ds : List UInt8) (d : ℤ) : Prop :=
  ds ≠ [] ∧ (∀ c ∈ ds, isdigit c) ∧ (digitsVal ds : ℤ) = d

/-- The channel name is `__event_type@db__:op`, as the caller's variables have them. -/
def Ntf.Names (ntf : Ntf) (channel : List UInt8) : Prop :=
  ∃ event_type db op, ntf.ntf_event_type = some event_type ∧ Numeral db ntf.ntf_db ∧
    ntf.ntf_op = some op ∧
    channel = ascii "__" ++ event_type ++ ascii "@" ++ db ++ ascii "__:" ++ op

/-- The parser is defined on this channel name, and whenever it returns 4 its answer names the
channel. -/
def SoundOn (channel : List UInt8) : Prop :=
  ∀ type pattern target ntf, ∃ p,
    redis_parse_keyspace_notification (pmessage type pattern channel target) ntf = .ok p ∧
      (p.ret = 4 → p.ntf.Names channel)

theorem not_mem_of_digits {ds : List UInt8} (h : ∀ c ∈ ds, isdigit c) {c : UInt8}
    (hc : isdigit c = false) : c ∉ ds := by
  intro hm
  rw [h c hm] at hc
  cases hc

/-- The documented form reads as it says. -/
theorem reading_documented {db op : List UInt8} (hne : db ≠ []) (hd : ∀ c ∈ db, isdigit c)
    (hop : op ≠ []) (h0 : 0 ∉ op) :
    Reading (db ++ ascii "__:" ++ op) 0 db 0 (ascii "_") op where
  cut := by
    have hmem : 0 ∉ db ++ ascii "__:" ++ op := by
      simp only [List.mem_append, not_or]
      exact ⟨⟨not_mem_of_digits hd (by decide), by decide⟩, h0⟩
    rw [view_of_no_zero hmem, ascii_marker, ascii_underscore]
    simp
  db_ne := hne
  db_free := not_mem_of_digits hd (by decide)
  junk_ne := by decide
  junk_free := by decide
  op_ne := hop

/-- A channel name with an event type in its place. -/
theorem opens_channel {event_type : List UInt8} (rest : List UInt8) (hne : event_type ≠ [])
    (h64 : 64 ∉ event_type) (h0 : 0 ∉ event_type) :
    Opens ([95, 95] ++ event_type ++ 64 :: rest) event_type (view rest) :=
  opens_iff.2 (strtok_event_type rest hne h64 h0)

/-- Only the C string is read. -/
theorem reading_view {rest db junk op : List UInt8} {a b : ℕ} :
    Reading (view rest) a db b junk op ↔ Reading rest a db b junk op := by
  have hview : view (view rest) = view rest := view_of_no_zero (zero_not_mem_view rest)
  constructor
  · rintro ⟨hcut, hdb, hfree, hjunk, hfree', hop⟩
    exact ⟨hview.symm.trans hcut, hdb, hfree, hjunk, hfree', hop⟩
  · rintro ⟨hcut, hdb, hfree, hjunk, hfree', hop⟩
    exact ⟨hview.trans hcut, hdb, hfree, hjunk, hfree', hop⟩

/-- `__keyevent@` and the rest, as the parser is shown it. -/
theorem keyevent_channel (rest : List UInt8) :
    ascii "__keyevent@" ++ rest = [95, 95] ++ ascii "keyevent" ++ 64 :: rest := by
  rw [show ascii "__keyevent@" = [95, 95] ++ ascii "keyevent" ++ [64] by decide]
  simp

/-- Variables that nothing was assigned to. -/
def ntf₀ : Ntf := ⟨none, none, none, 0, none, 0, none, 0⟩

/-- What the parser does with a channel name that begins so. -/
theorem parse_keyevent (rest type pattern target : List UInt8) (ntf : Ntf) :
    (∃ a db b junk op, Reading rest a db b junk op ∧ 0 ≤ atoi db ∧
      redis_parse_keyspace_notification
          (pmessage type pattern (ascii "__keyevent@" ++ rest) target) ntf =
        if ¬ (copyToken op).Fits then .error .overrun
        else .ok ⟨4, ((ntf.opened type pattern).read (ascii "keyevent") db op).target target,
          [copyToken (ascii "keyevent"), copyToken op]⟩) ∨
    ((∀ a db b junk op, Reading rest a db b junk op → ¬ 0 ≤ atoi db) ∧
      ∃ p, redis_parse_keyspace_notification
        (pmessage type pattern (ascii "__keyevent@" ++ rest) target) ntf = .ok p ∧ p.ret < 0) := by
  have hopens : Opens (ascii "__keyevent@" ++ rest) (ascii "keyevent") (view rest) := by
    rw [keyevent_channel]
    exact opens_channel rest (by decide) (by decide) (by decide)
  have hlen : 2 ≤ (ascii "__keyevent@" ++ rest).length := by
    rw [List.length_append]
    exact le_add_right (by decide)
  rcases parseChannel_opened hlen hopens (by decide) (ntf.opened type pattern) with
    ⟨a, db, b, junk, op, hr, hdb, hp⟩ | ⟨hno, ret, ntf', hret, hp⟩
  · refine .inl ⟨a, db, b, junk, op, reading_view.1 hr, hdb, ?_⟩
    rw [parse_pmessage, hp]
    split_ifs <;> rfl
  · refine .inr ⟨fun a db b junk op hr => hno a db b junk op (reading_view.2 hr),
      ⟨ret, ntf', [copyToken (ascii "keyevent")]⟩, ?_, hret⟩
    rw [parse_pmessage, hp]

/-- What a sound answer says of the way a channel name is cut. -/
theorem documented_of_sound {rest db junk op : List UInt8} {a b : ℕ}
    (hsound : SoundOn (ascii "__keyevent@" ++ rest)) (hr : Reading rest a db b junk op)
    (hdb : 0 ≤ atoi db) :
    op.length ≤ 63 ∧ a = 0 ∧ b = 0 ∧ junk = ascii "_" ∧ (∀ c ∈ db, isdigit c) ∧
      (digitsVal db : ℤ) ≤ INT_MAX ∧ 0 ∉ rest := by
  obtain ⟨p, hp, hnames⟩ := hsound [] [] [] ntf₀
  rcases parse_keyevent rest [] [] [] ntf₀ with ⟨a', db', b', junk', op', hr', -, hp'⟩ | ⟨hno, -⟩
  swap
  · exact absurd hdb (hno a db b junk op hr)
  obtain ⟨rfl, rfl, rfl, rfl, rfl⟩ := hr.unique hr'
  by_cases hfit : (copyToken op).Fits
  swap
  · rw [if_pos hfit] at hp'
    cases hp.symm.trans hp'
  rw [if_neg (not_not.2 hfit)] at hp'
  obtain rfl := Except.ok.inj (hp'.symm.trans hp)
  -- soundness names the channel, and this name is a second reading of it
  obtain ⟨t, ds, o, ht, ⟨hne, hdigits, hval⟩, ho, hchan⟩ := hnames rfl
  cases ht
  cases ho
  have hrest : rest = ds ++ ascii "__:" ++ op := by
    rw [keyevent_channel, ascii_underscores, ascii_at] at hchan
    simpa using hchan
  have hop : 0 ∉ op := fun hm => zero_not_mem_view rest (by rw [hr.cut]; simp [hm])
  obtain ⟨rfl, rfl, rfl, rfl, -⟩ := hr.unique (hrest ▸ reading_documented hne hdigits hr.op_ne hop)
  refine ⟨copyToken_fits.1 hfit, rfl, rfl, rfl, hdigits, ?_, ?_⟩
  · exact hval.trans_le (int32_le _)
  · rw [hrest]
    simp only [List.mem_append, not_or]
    exact ⟨⟨not_mem_of_digits hdigits (by decide), by decide⟩, hop⟩

/-- **Soundness of the parser.**  On a channel delivered by `__keyevent@*__:*` the parser is
defined and its answer names the channel exactly if the only way to cut it that the parser accepts,
if there is one, is the documented one, with an operation that fits its buffer. -/
theorem parse_sound_iff (x y : List UInt8) :
    SoundOn (ascii "__keyevent@" ++ (x ++ ascii "__:" ++ y)) ↔
      ∀ a db b junk op, Reading (x ++ ascii "__:" ++ y) a db b junk op → 0 ≤ atoi db →
        op.length ≤ 63 ∧ a = 0 ∧ b = 0 ∧ junk = ascii "_" ∧ (∀ c ∈ db, isdigit c) ∧
          (digitsVal db : ℤ) ≤ INT_MAX ∧ 0 ∉ x ++ ascii "__:" ++ y := by
  constructor
  · intro hsound a db b junk op hr hdb
    exact documented_of_sound hsound hr hdb
  · intro h type pattern target ntf
    rcases parse_keyevent (x ++ ascii "__:" ++ y) type pattern target ntf with
      ⟨a, db, b, junk, op, hr, hdb, hp⟩ | ⟨-, p, hp, hret⟩
    · obtain ⟨hop, rfl, rfl, rfl, hdigits, hmax, h0⟩ := h a db b junk op hr hdb
      rw [if_neg (not_not.2 (copyToken_fits.2 hop))] at hp
      refine ⟨_, hp, fun _ => ⟨ascii "keyevent", db, op, rfl, ⟨hr.db_ne, hdigits, ?_⟩, rfl, ?_⟩⟩
      · exact (atoi_digits hr.db_ne hdigits hmax).symm
      · have hcut := hr.cut
        rw [view_of_no_zero h0, ascii_underscore] at hcut
        rw [hcut, show ascii "__keyevent@" = ascii "__" ++ ascii "keyevent" ++ ascii "@" by decide,
          ascii_marker]
        simp
    · exact ⟨p, hp, fun h4 => by omega⟩

/-- `__keyevent@abc__:set` is taken for an event of database 0. -/
theorem parse_unsound_abc :
    ¬ SoundOn (ascii "__keyevent@" ++ (ascii "abc" ++ ascii "__:" ++ ascii "set")) := by
  intro hsound
  have hr : Reading (ascii "abc" ++ ascii "__:" ++ ascii "set") 0 (ascii "abc") 0 (ascii "_")
      (ascii "set") :=
    ⟨by decide, by decide, by decide, by decide, by decide, by decide⟩
  have hdigits := (documented_of_sound hsound hr (by decide)).2.2.2.2.1
  exact absurd (hdigits 97 (by decide)) (by decide)

end Redis
