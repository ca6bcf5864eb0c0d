import Glouglou.Glougloud.Redis

/-!
# glougloud: what the parser makes of every notification

`parse_format`: a channel name of the documented form is taken apart into what it was made from,
whatever stands in the operation.  `parse_safe_iff`: on which arrays of strings the parser reads
no string past its end, copies each token into its buffer and refuses every channel name that is
not of the documented form.
-/

open CInt CString

namespace Redis

/-! ### The documented form -/

/-- A channel name of the documented form, `__event_type@db__:op`, whose names fit their buffers
and whose database is an `int`. -/
structure Documented (str event_type db op : List UInt8) : Prop where
  form : str = ascii "__" ++ event_type ++ ascii "@" ++ db ++ ascii "__:" ++ op
  no_zero : 0 ∉ str
  type_ne : event_type ≠ []
  type_free : 64 ∉ event_type
  type_len : event_type.length ≤ 63
  db_ne : db ≠ []
  db_digits : ∀ c ∈ db, isdigit c
  db_int : (digitsVal db : ℤ) ≤ INT_MAX
  op_ne : op ≠ []
  op_len : op.length ≤ 63

def WellFormed (str : List UInt8) : Prop := ∃ event_type db op, Documented str event_type db op

namespace Documented

variable {str event_type db op : List UInt8}

theorem channel (h : Documented str event_type db op) :
    str = [95, 95] ++ event_type ++ 64 :: (db ++ ascii "__:" ++ op) := by
  rw [h.form, ascii_at, ascii_underscores]
  simp

theorem two_le (h : Documented str event_type db op) : 2 ≤ str.length := by
  rw [h.channel]
  simp

theorem opens (h : Documented str event_type db op) :
    Opens str event_type (db ++ ascii "__:" ++ op) := by
  have hz := h.no_zero
  rw [h.channel] at hz
  have htype : 0 ∉ event_type := fun hm => hz (by simp [hm])
  have hrest : 0 ∉ db ++ ascii "__:" ++ op := fun hm =>
    hz (List.mem_append_right _ (List.mem_cons_of_mem _ hm))
  have hopens := opens_channel (db ++ ascii "__:" ++ op) h.type_ne h.type_free htype
  rwa [view_of_no_zero hrest, ← h.channel] at hopens

theorem reading (h : Documented str event_type db op) :
    Reading (db ++ ascii "__:" ++ op) 0 db 0 (ascii "_") op := by
  refine reading_documented h.db_ne h.db_digits h.op_ne fun hm => h.no_zero ?_
  rw [h.form]
  exact List.mem_append_right _ hm

theorem atoi_db (h : Documented str event_type db op) : atoi db = digitsVal db :=
  atoi_digits h.db_ne h.db_digits h.db_int

/-- A channel name of the documented form is read. -/
theorem parse (h : Documented str event_type db op) (ntf : Ntf) :
    parseChannel str ntf =
      .ok (none, ntf.read event_type db op, [copyToken event_type, copyToken op]) :=
  parse_channel_of_reading h.two_le h.opens h.type_len h.reading (by rw [h.atoi_db]; omega)
    h.op_len ntf

end Documented

/-! ### Completeness -/

/-- The channel name of an event. -/
def channelName (event_type : List UInt8) (db : ℕ) (op : List UInt8) : List UInt8 :=
  ascii "__" ++ event_type ++ ascii "@" ++ decimal db ++ ascii "__:" ++ op

theorem documented_channel {event_type op : List UInt8} (hne : event_type ≠ [])
    (hlen : event_type.length ≤ 63) (h64 : 64 ∉ event_type) (h0 : 0 ∉ event_type) {db : ℕ}
    (hdb : db < 2 ^ 31) (hop : op ≠ []) (hoplen : op.length ≤ 63) (hop0 : 0 ∉ op) :
    Documented (channelName event_type db op) event_type (decimal db) op := by
  obtain ⟨hdne, hdig, hval⟩ := decimal_digits db
  refine ⟨rfl, ?_, hne, h64, hlen, hdne, hdig, by rw [hval]; unfold INT_MAX; omega, hop, hoplen⟩
  have hd0 : 0 ∉ decimal db := not_mem_of_digits hdig (by decide)
  rw [channelName]
  simp only [List.mem_append, not_or]
  exact ⟨⟨⟨⟨⟨by decide, h0⟩, by decide⟩, hd0⟩, by decide⟩, hop0⟩

/-- The answer of the parser: all of the notification, with the length of the key as an `int`,
and copies that fit. -/
structure Parsed.Complete (p : Parsed) (type pattern event_type : List UInt8) (db : ℕ)
    (op target : List UInt8) : Prop where
  ret : p.ret = 4
  ntf_type : p.ntf.ntf_type = some type
  ntf_pattern : p.ntf.ntf_pattern = some pattern
  ntf_event_type : p.ntf.ntf_event_type = some event_type
  ntf_db : p.ntf.ntf_db = db
  ntf_op : p.ntf.ntf_op = some op
  ntf_op_len : p.ntf.ntf_op_len = op.length
  ntf_target : p.ntf.ntf_target = some target
  ntf_target_len : p.ntf.ntf_target_len = int32 target.length
  copies : ∀ c ∈ p.copies, c.Fits

/-- **Completeness of the parser.**  A notification with a channel name of the documented form is
taken apart into what it was made from; the length of its key is exact up to `INT_MAX`. -/
theorem parse_format {event_type op : List UInt8} (hne : event_type ≠ [])
    (hlen : event_type.length ≤ 63) (h64 : 64 ∉ event_type) (h0 : 0 ∉ event_type) {db : ℕ}
    (hdb : db < 2 ^ 31) (hop : op ≠ []) (hoplen : op.length ≤ 63) (hop0 : 0 ∉ op)
    (type pattern target : List UInt8) (ntf : Ntf) :
    ∃ p, redis_parse_keyspace_notification
        (pmessage type pattern (channelName event_type db op) target) ntf = .ok p ∧
      p.Complete type pattern event_type db op target ∧
      (p.ntf.ntf_target_len = target.length ↔ (target.length : ℤ) ≤ INT_MAX) := by
  have hdoc := documented_channel hne hlen h64 h0 hdb hop hoplen hop0
  have hoplen' : int32 op.length = op.length :=
    int32_of_mem (by omega) (by unfold INT_MAX; omega)
  have hatoi : atoi (decimal db) = db := by rw [hdoc.atoi_db, (decimal_digits db).2.2]
  refine ⟨⟨4, ((ntf.opened type pattern).read event_type (decimal db) op).target target,
    [copyToken event_type, copyToken op]⟩, ?_,
    ⟨rfl, rfl, rfl, rfl, hatoi, rfl, hoplen', rfl, rfl, ?_⟩, ?_⟩
  · rw [parse_pmessage, hdoc.parse]
  · exact parseChannel_copies (hdoc.parse ntf)
  · show int32 target.length = target.length ↔ _
    constructor
    · intro h
      rw [← h]
      exact int32_le _
    · intro h
      exact int32_of_mem (by omega) h

/-- An operation that is full of separators. -/
theorem parse_format_separators :
    ∃ p, redis_parse_keyspace_notification (pmessage (ascii "pmessage") (ascii "__key*@*__:*")
        (channelName (ascii "keyevent") 2147483647 (ascii ":_@:")) (ascii "/n/a")) ntf₀ = .ok p ∧
      p.Complete (ascii "pmessage") (ascii "__key*@*__:*") (ascii "keyevent") 2147483647
        (ascii ":_@:") (ascii "/n/a") := by
  obtain ⟨p, hp, hc, -⟩ := @parse_format (ascii "keyevent") (ascii ":_@:") (by decide)
    (by decide) (by decide) (by decide) 2147483647 (by norm_num) (by decide) (by decide)
    (by decide) (ascii "pmessage") (ascii "__key*@*__:*") (ascii "/n/a") ntf₀
  exact ⟨p, hp, hc⟩

/-- A key of `2 ^ 31` bytes is said to have a negative length. -/
theorem parse_long_target :
    ∃ p, redis_parse_keyspace_notification (pmessage [] [] (channelName (ascii "keyevent") 0
        (ascii "set")) (List.replicate (2 ^ 31) 97)) ntf₀ = .ok p ∧
      p.ntf.ntf_target_len ≠ (List.replicate (2 ^ 31) (97 : UInt8)).length := by
  obtain ⟨p, hp, -, hlen⟩ := @parse_format (ascii "keyevent") (ascii "set") (by decide)
    (by decide) (by decide) (by decide) 0 (by norm_num) (by decide) (by decide) (by decide)
    [] [] (List.replicate (2 ^ 31) 97) ntf₀
  refine ⟨p, hp, fun h => ?_⟩
  have hmax := hlen.1 h
  rw [List.length_replicate] at hmax
  exact absurd hmax (by decide)

/-! ### Safety -/

/-- An array of strings. -/
def strings (els : List (List UInt8)) : RedisReply := ⟨.array, [], els.map .ofString⟩

/-- A channel name that can be cut into tokens that fit their buffers, with a database. -/
def Cuttable (str : List UInt8) : Prop :=
  ∃ event_type rest a db b junk op, Opens str event_type rest ∧ event_type.length ≤ 63 ∧
    Reading rest a db b junk op ∧ 0 ≤ atoi db ∧ op.length ≤ 63

theorem WellFormed.cuttable {str : List UInt8} (h : WellFormed str) : Cuttable str := by
  obtain ⟨event_type, db, op, hdoc⟩ := h
  exact ⟨event_type, _, 0, db, 0, _, op, hdoc.opens, hdoc.type_len, hdoc.reading,
    by rw [hdoc.atoi_db]; omega, hdoc.op_len⟩

/-- The parser is defined on an array of strings, each copy fits its buffer, and a channel name
that is not well formed is refused with a negative value. -/
def SafeOnStrings (els : List (List UInt8)) : Prop :=
  ∀ ntf, ∃ p, redis_parse_keyspace_notification (strings els) ntf = .ok p ∧
    (∀ c ∈ p.copies, c.Fits) ∧ ∀ str, els[2]? = some str → ¬ WellFormed str → p.ret < 0

/-- The string is `__` and the event type without a zero byte, and the way it goes on behind the
`@` is the documented one. -/
def Exact (str event_type : List UInt8) (a : ℕ) (db : List UInt8) (b : ℕ) (junk : List UInt8) :
    Prop :=
  ascii "__" ++ event_type <+: str ∧ 0 ∉ str ∧ a = 0 ∧ b = 0 ∧ junk = ascii "_" ∧
    (∀ c ∈ db, isdigit c) ∧ (digitsVal db : ℤ) ≤ INT_MAX

/-- What the parser does not check of a channel name in an array of `n` strings: there is an event
type, which fits its buffer, and if the rest can be cut with a database in it, the operation fits
its own, and the cut is the documented one or the number of strings is negative as an `int`. -/
def Guarded (n : ℕ) (str : List UInt8) : Prop :=
  2 ≤ str.length ∧ ∃ event_type rest, Opens str event_type rest ∧ event_type.length ≤ 63 ∧
    ∀ a db b junk op, Reading rest a db b junk op → 0 ≤ atoi db →
      op.length ≤ 63 ∧ (int32 n < 0 ∨ Exact str event_type a db b junk)

/-- An element that only sets a variable. -/
theorem parseElements_cons {i : ℕ} {r : RedisReply} {ntf ntf' : Ntf}
    (h : parseElement i r ntf = .ok (none, ntf', [])) (rs : List RedisReply) :
    parseElements i (r :: rs) ntf = parseElements (i + 1) rs ntf' := by
  rw [parseElements, h]
  dsimp only
  rcases parseElements (i + 1) rs ntf' with e | ⟨ret, ntf'', copies⟩
  · rfl
  · rfl

/-- From the fourth string on there are only such elements. -/
theorem parseElements_tail {i : ℕ} (hi : 3 ≤ i) (els : List (List UInt8)) (ntf : Ntf) :
    ∃ ntf', parseElements i (els.map .ofString) ntf = .ok (none, ntf', []) := by
  induction els generalizing i ntf with
  | nil => exact ⟨ntf, rfl⟩
  | cons str els ih =>
    obtain ⟨ntf₁, h₁⟩ : ∃ ntf₁, parseElement i (.ofString str) ntf = .ok (none, ntf₁, []) := by
      obtain ⟨j, rfl⟩ := Nat.exists_eq_add_of_le hi
      rcases j with _ | j
      · exact ⟨_, rfl⟩
      · refine ⟨ntf, ?_⟩
        rw [show 3 + (j + 1) = j + 4 by ring]
        rfl
    rw [List.map_cons, parseElements_cons h₁]
    exact ih (show 3 ≤ i + 1 by omega) ntf₁

/-- The third string of an array decides. -/
theorem parse_strings (type pattern str : List UInt8) (els : List (List UInt8)) (ntf : Ntf) :
    (∀ e, parseChannel str (ntf.opened type pattern) = .error e →
      redis_parse_keyspace_notification (strings (type :: pattern :: str :: els)) ntf =
        .error e) ∧
    (∀ ret ntf' copies,
      parseChannel str (ntf.opened type pattern) = .ok (some ret, ntf', copies) →
      redis_parse_keyspace_notification (strings (type :: pattern :: str :: els)) ntf =
        .ok ⟨ret, ntf', copies⟩) ∧
    ∀ ntf' copies, parseChannel str (ntf.opened type pattern) = .ok (none, ntf', copies) →
      ∃ ntf'', redis_parse_keyspace_notification (strings (type :: pattern :: str :: els)) ntf =
        .ok ⟨int32 (type :: pattern :: str :: els).length, ntf'', copies⟩ := by
  have hloop : parseElements 0 (strings (type :: pattern :: str :: els)).element ntf.clear =
      parseElements 2 (.ofString str :: els.map .ofString) (ntf.opened type pattern) := by
    unfold strings
    rw [List.map_cons, List.map_cons, List.map_cons, parseElements_cons rfl, parseElements_cons rfl]
    rfl
  have hchan : parseElement 2 (.ofString str) (ntf.opened type pattern) =
      parseChannel str (ntf.opened type pattern) := rfl
  have htype : ¬ (strings (type :: pattern :: str :: els)).type ≠ .array := fun h => h rfl
  have hcount : ¬ (strings (type :: pattern :: str :: els)).element.length < 1 := by
    simp [strings]
  unfold redis_parse_keyspace_notification
  rw [if_neg htype, if_neg hcount, hloop, parseElements, hchan]
  refine ⟨fun e h => by rw [h], fun ret ntf' copies h => by rw [h], fun ntf' copies h => ?_⟩
  obtain ⟨ntf'', htail⟩ := parseElements_tail le_rfl els ntf'
  rw [h]
  simp only [htail, List.append_nil]
  refine ⟨ntf'', ?_⟩
  rw [strings, List.length_map]

/-- A cut that is exact is one of the documented form. -/
theorem documented_of_exact {str event_type rest db junk op : List UInt8} {a b : ℕ}
    (h : Opens str event_type rest) (htype : event_type.length ≤ 63)
    (hr : Reading rest a db b junk op) (hop : op.length ≤ 63)
    (he : Exact str event_type a db b junk) : Documented str event_type db op := by
  obtain ⟨⟨r, hstr⟩, hzero, rfl, rfl, rfl, hdigits, hmax⟩ := he
  have hview := view_rest h
  obtain ⟨hne, hfree, k, hcut⟩ := h
  have hdrop : str.drop 2 = event_type ++ r := by
    rw [← hstr, ascii_underscores, List.append_assoc]
    rfl
  have h0 : 0 ∉ event_type ++ r := fun hm => hzero (List.mem_of_mem_drop (hdrop ▸ hm))
  rw [hdrop, view_of_no_zero h0] at hcut
  -- no `@` stands before the event type
  have hk : k = 0 := by
    obtain ⟨c, t, rfl⟩ := List.exists_cons_of_ne_nil hne
    rcases k with _ | k
    · rfl
    · have hhead : c = 64 := by
        rcases hcut with ⟨hcut, -⟩ | hcut
        · exact (List.cons.inj hcut).1
        · exact (List.cons.inj hcut).1
      exact absurd (hhead ▸ List.mem_cons_self) hfree
  subst hk
  have hrest := hr.cut
  rw [hview] at hrest
  have hr' : r = 64 :: rest := by
    rcases hcut with ⟨-, hnil⟩ | hcut
    · rw [hnil] at hrest
      simp at hrest
    · rw [List.replicate_zero, List.nil_append] at hcut
      exact List.append_cancel_left hcut
  refine ⟨?_, hzero, hne, hfree, htype, hr.db_ne, hdigits, hmax, hr.op_ne, hop⟩
  rw [← hstr, hr', hrest, ascii_at, ascii_marker, ascii_underscore]
  simp

/-- The cut of a channel name of the documented form is exact. -/
theorem exact_of_wellFormed {str event_type rest db junk op : List UInt8} {a b : ℕ}
    (h : Opens str event_type rest) (hr : Reading rest a db b junk op) (hw : WellFormed str) :
    Exact str event_type a db b junk := by
  obtain ⟨event_type', db', op', hdoc⟩ := hw
  have hcall := (opens_iff.1 h).symm.trans (opens_iff.1 hdoc.opens)
  simp only [Prod.mk.injEq, Option.some.injEq] at hcall
  obtain ⟨rfl, rfl⟩ := hcall
  obtain ⟨rfl, rfl, rfl, rfl, rfl⟩ := hr.unique hdoc.reading
  refine ⟨⟨ascii "@" ++ (db ++ (ascii "__:" ++ op)), ?_⟩, hdoc.no_zero, rfl, rfl, rfl,
    hdoc.db_digits, hdoc.db_int⟩
  rw [hdoc.form]
  simp only [List.append_assoc]

/-- A channel name on which the parser is defined has an event type that fits. -/
theorem opens_of_parse {str : List UInt8} {ntf ntf' : Ntf} {ret : Option ℤ} {copies : List Memcpy}
    (h : parseChannel str ntf = .ok (ret, ntf', copies)) :
    2 ≤ str.length ∧ ∃ event_type rest, Opens str event_type rest ∧ event_type.length ≤ 63 := by
  have hlen : 2 ≤ str.length := by
    by_contra hlt
    unfold parseChannel at h
    rw [if_pos (by omega)] at h
    cases h
  cases cut h with
  | early _ _ h₁ htype => exact ⟨hlen, _, _, opens_iff.2 h₁, htype⟩
  | whole h₁ htype => exact ⟨hlen, _, _, opens_iff.2 h₁, htype⟩

/-- The channel name alone. -/
theorem guarded_iff {n : ℕ} {str : List UInt8} {ntf : Ntf} : Guarded n str ↔
    ∃ ret ntf' copies, parseChannel str ntf = .ok (ret, ntf', copies) ∧
      (ret = none → int32 n < 0 ∨ WellFormed str) := by
  constructor
  · rintro ⟨hlen, event_type, rest, hopens, htype, hrest⟩
    rcases parseChannel_opened hlen hopens htype ntf with ⟨a, db, b, junk, op, hr, hdb, h⟩ |
      ⟨-, ret, ntf', -, h⟩
    · obtain ⟨hop, hexact⟩ := hrest a db b junk op hr hdb
      rw [if_neg (not_not.2 (copyToken_fits.2 hop))] at h
      refine ⟨_, _, _, h, fun _ => hexact.imp_right fun he => ?_⟩
      exact ⟨event_type, db, op, documented_of_exact hopens htype hr hop he⟩
    · exact ⟨_, _, _, h, fun hnone => by cases hnone⟩
  · rintro ⟨ret, ntf', copies, h, hwell⟩
    obtain ⟨hlen, event_type, rest, hopens, htype⟩ := opens_of_parse h
    refine ⟨hlen, event_type, rest, hopens, htype, fun a' db' b' junk' op' hr' hdb' => ?_⟩
    rcases parseChannel_opened hlen hopens htype ntf with ⟨a, db, b, junk, op, hr, hdb, h'⟩ |
      ⟨hno, -⟩
    · obtain ⟨rfl, rfl, rfl, rfl, rfl⟩ := hr.unique hr'
      by_cases hfit : (copyToken op).Fits
      · rw [if_neg (not_not.2 hfit)] at h'
        cases h.symm.trans h'
        exact ⟨copyToken_fits.1 hfit, (hwell rfl).imp_right (exact_of_wellFormed hopens hr)⟩
      · rw [if_pos hfit] at h'
        cases h.symm.trans h'
    · exact absurd hdb' (hno a' db' b' junk' op' hr')

/-- **Safety of the parser.**  On an array of strings the parser is safe, and refuses what is not
of the documented form, exactly if the third string, if there is one, is guarded. -/
theorem parse_safe_iff (els : List (List UInt8)) :
    SafeOnStrings els ↔ ∀ str, els[2]? = some str → Guarded els.length str := by
  constructor
  · intro hsafe str hstr
    obtain ⟨type, pattern, els, rfl⟩ :
        ∃ type pattern els', els = type :: pattern :: str :: els' := by
      rcases els with _ | ⟨type, _ | ⟨pattern, _ | ⟨str', els⟩⟩⟩
      · cases hstr
      · cases hstr
      · cases hstr
      · cases hstr
        exact ⟨type, pattern, els, rfl⟩
    obtain ⟨p, hp, -, hrefused⟩ := hsafe ntf₀
    obtain ⟨herr, hret, hnone⟩ := parse_strings type pattern str els ntf₀
    rcases h : parseChannel str (ntf₀.opened type pattern) with e | ⟨_ | ret, ntf', copies⟩
    · cases hp.symm.trans (herr e h)
    · obtain ⟨ntf'', h'⟩ := hnone ntf' copies h
      obtain rfl := Except.ok.inj (hp.symm.trans h')
      refine guarded_iff.2 ⟨_, _, _, h, fun _ => ?_⟩
      exact or_iff_not_imp_right.2 (hrefused str rfl)
    · exact guarded_iff.2 ⟨_, _, _, h, fun hno => by cases hno⟩
  · intro hguard ntf
    rcases els with _ | ⟨type, _ | ⟨pattern, _ | ⟨str, els⟩⟩⟩
    · exact ⟨_, rfl, by simp, by simp⟩
    · exact ⟨_, rfl, by simp, by simp⟩
    · exact ⟨_, rfl, by simp, by simp⟩
    obtain ⟨-, hret, hnone⟩ := parse_strings type pattern str els ntf
    obtain ⟨ret, ntf', copies, h, hwell⟩ := guarded_iff.1 (hguard str rfl)
    have hfit := parseChannel_copies h
    rcases ret with _ | ret
    · obtain ⟨ntf'', h'⟩ := hnone ntf' copies h
      refine ⟨_, h', hfit, fun str' hstr' hbad => ?_⟩
      cases hstr'
      exact (hwell rfl).resolve_right hbad
    · exact ⟨_, hret ret ntf' copies h, hfit, fun _ _ _ => parseChannel_early h⟩

/-- The channel name of the tests. -/
theorem documented_keyevent : Documented (ascii "__keyevent@0__:set") (ascii "keyevent")
    (ascii "0") (ascii "set") := by
  have hzero : ascii "0" = [48] := by decide
  have hval : digitsVal [48] = 0 := by decide
  refine ⟨by decide, by decide, by decide, by decide, by decide, by decide, ?_, ?_, by decide,
    by decide⟩
  · rw [hzero]
    exact List.forall_mem_singleton.2 (by decide)
  · rw [hzero, hval]
    unfold INT_MAX
    norm_num

/-- The notification of the tests. -/
theorem parse_safe_keyevent : SafeOnStrings
    [ascii "pmessage", ascii "__key*@*__:*", ascii "__keyevent@0__:set", ascii "foo"] := by
  rw [parse_safe_iff]
  intro str hstr
  cases hstr
  exact guarded_iff.2 ⟨_, _, _, documented_keyevent.parse ntf₀,
    fun _ => .inr ⟨_, _, _, documented_keyevent⟩⟩

/-- Within `__keyevent@*__:*` an operation of 64 bytes is copied past its buffer, and a database
that is no number is not refused; strings that no such pattern delivers are read past their end,
or have no token to copy. -/
theorem parse_unsafe_op :
    ¬ SafeOnStrings [ascii "pmessage", ascii "__keyevent@*__:*",
      ascii "__keyevent@0__:" ++ List.replicate 64 97, ascii "foo"] ∧
    ¬ SafeOnStrings [ascii "pmessage", ascii "__keyevent@*__:*", ascii "__keyevent@abc__:set",
      ascii "foo"] ∧
    redis_parse_keyspace_notification (strings [[], [], ascii "_"]) ntf₀ = .error .overread ∧
    redis_parse_keyspace_notification (strings [[], [], ascii "__@"]) ntf₀ =
      .error .nullToken := by
  refine ⟨fun hsafe => ?_, fun hsafe => ?_, rfl, rfl⟩
  · obtain ⟨p, hp, -⟩ := hsafe ntf₀
    have herr : redis_parse_keyspace_notification (strings [ascii "pmessage",
        ascii "__keyevent@*__:*", ascii "__keyevent@0__:" ++ List.replicate 64 97, ascii "foo"])
        ntf₀ = .error .overrun := rfl
    cases hp.symm.trans herr
  · obtain ⟨p, hp, -, hrefused⟩ := hsafe ntf₀
    have h4 : (redis_parse_keyspace_notification (strings [ascii "pmessage",
        ascii "__keyevent@*__:*", ascii "__keyevent@abc__:set", ascii "foo"])
        ntf₀).toOption.map Parsed.ret = some 4 := by decide
    rw [hp] at h4
    have hret := Option.some.inj h4
    have hopens : Opens (ascii "__keyevent@abc__:set") (ascii "keyevent") (ascii "abc__:set") :=
      opens_iff.2 (by decide)
    have hr : Reading (ascii "abc__:set") 0 (ascii "abc") 0 (ascii "_") (ascii "set") :=
      ⟨by decide, by decide, by decide, by decide, by decide, by decide⟩
    have hneg := hrefused _ rfl fun hw =>
      absurd ((exact_of_wellFormed hopens hr hw).2.2.2.2.2.1 97 (by decide)) (by decide)
    omega

end Redis
