import Glouglou.Glougloud.Redis.Channel

/-!
# glougloud: what a return value of 4 says of the outputs

`_redis_cb_notification` uses the outputs of the parser when it returns 4 or more.  The value
returned is the number of elements of the array, whatever their types, and an element that is no
string sets nothing.

* `Ntf.Assigned`: the outputs that element number `j` is to set are set;
* `parseElement_keeps`, `parseElement_assigned`, `parseElements_assigned`: what one element, and
  what the loop, sets;
* `certifies_iff`: on which replies a value of at least 4 certifies all outputs.
-/

open CInt CString

namespace Redis

/-- All outputs are there: no pointer is `NULL`, there is a database, and the lengths are those of
the operation and of the key. -/
structure Ntf.Certified (ntf : Ntf) : Prop where
  ntf_type : ntf.ntf_type ≠ none
  ntf_pattern : ntf.ntf_pattern ≠ none
  ntf_event_type : ntf.ntf_event_type ≠ none
  ntf_db : 0 ≤ ntf.ntf_db
  ntf_op : ∃ op, ntf.ntf_op = some op ∧ ntf.ntf_op_len = op.length
  ntf_target : ∃ target, ntf.ntf_target = some target ∧ ntf.ntf_target_len = target.length

/-- The parser returns, and a value of at least 4 certifies its outputs. -/
def Certifies (reply : RedisReply) (ntf : Ntf) : Prop :=
  ∃ p, redis_parse_keyspace_notification reply ntf = .ok p ∧ (4 ≤ p.ret → p.ntf.Certified)

/-- Element 2 is a channel name that can be cut into tokens that fit, if it is a string. -/
def ChannelOk (reply : RedisReply) : Prop :=
  ∀ r, reply.element[2]? = some r → r.type = .string → Cuttable r.str

/-- The first four elements are strings, the last of them with a length that is an `int`. -/
def FourStrings (els : List RedisReply) : Prop :=
  ∀ j < 4, ∃ r, els[j]? = some r ∧ r.type = .string ∧ (j = 3 → (r.str.length : ℤ) ≤ INT_MAX)

/-! ### The outputs of one element -/

/-- The outputs that element number `j` is to set are set. -/
def Ntf.Assigned (ntf : Ntf) : ℕ → Prop
  | 0 => ntf.ntf_type ≠ none
  | 1 => ntf.ntf_pattern ≠ none
  | 2 => ntf.ntf_event_type ≠ none ∧ 0 ≤ ntf.ntf_db ∧
      ∃ op, ntf.ntf_op = some op ∧ ntf.ntf_op_len = op.length
  | 3 => ∃ target, ntf.ntf_target = some target ∧ ntf.ntf_target_len = target.length
  | _ => True

/-- The element sets the outputs that element number `j` is to set. -/
def RedisReply.Assigns (r : RedisReply) (j : ℕ) : Prop :=
  r.type = .string ∧ (j = 3 → (r.str.length : ℤ) ≤ INT_MAX)

theorem certified_iff (ntf : Ntf) : ntf.Certified ↔ ∀ j < 4, ntf.Assigned j := by
  constructor
  · intro h j hj
    match j, hj with
    | 0, _ => exact h.ntf_type
    | 1, _ => exact h.ntf_pattern
    | 2, _ => exact ⟨h.ntf_event_type, h.ntf_db, h.ntf_op⟩
    | 3, _ => exact h.ntf_target
  · intro h
    obtain ⟨hevent, hdb, hop⟩ := h 2 (by norm_num)
    exact ⟨h 0 (by norm_num), h 1 (by norm_num), hevent, hdb, hop, h 3 (by norm_num)⟩

/-- Before the loop none of the outputs is set. -/
theorem not_assigned_clear (ntf : Ntf) {j : ℕ} (hj : j < 4) : ¬ ntf.clear.Assigned j := by
  match j, hj with
  | 0, _ => exact fun h => h rfl
  | 1, _ => exact fun h => h rfl
  | 2, _ => exact fun h => h.1 rfl
  | 3, _ =>
    rintro ⟨target, htarget, -⟩
    cases htarget

/-- A channel name that can be cut is read. -/
theorem parseChannel_cuttable {str : List UInt8} (h : Cuttable str) (ntf : Ntf) :
    ∃ event_type db op copies,
      parseChannel str ntf = .ok (none, ntf.read event_type db op, copies) ∧
        0 ≤ atoi db ∧ (op.length : ℤ) ≤ INT_MAX := by
  obtain ⟨event_type, rest, a, db, b, junk, op, hopens, htype, hr, hdb, hop⟩ := h
  have hlen : 2 ≤ str.length := by
    by_contra hlt
    -- of a string of one byte nothing is left, and there is no token in it
    have hnil : view (str.drop 2) = [] := by
      rw [List.drop_eq_nil_of_le (by omega)]
      rfl
    obtain ⟨hne, -, k, ⟨hcut, -⟩ | hcut⟩ := hopens
    · rw [hnil] at hcut
      exact hne (List.append_eq_nil_iff.1 hcut.symm).2
    · rw [hnil] at hcut
      simp at hcut
  exact ⟨_, _, _, _, parse_channel_of_reading hlen hopens htype hr hdb hop ntf, hdb,
    by unfold INT_MAX; omega⟩

/-- One element leaves the outputs of the others. -/
theorem parseElement_keeps {i j : ℕ} {r : RedisReply} {ntf ntf' : Ntf} {ret : Option ℤ}
    {copies : List Memcpy} (h : parseElement i r ntf = .ok (ret, ntf', copies)) (hj : j ≠ i) :
    ntf'.Assigned j ↔ ntf.Assigned j := by
  unfold parseElement at h
  split_ifs at h
  · split at h <;> first | cases cut h | cases h
    -- the fields an element sets are those of its own case of `Assigned`
    all_goals
      rcases j with _ | _ | _ | _ | j <;> first | exact absurd rfl hj | exact Iff.rfl
  · cases h
    exact Iff.rfl

/-- One element sets its own outputs if it is a string. -/
theorem parseElement_assigned {i : ℕ} {r : RedisReply} (ntf : Ntf)
    (hchan : i = 2 → r.type = .string → Cuttable r.str) :
    ∃ ntf' copies, parseElement i r ntf = .ok (none, ntf', copies) ∧
      (i < 4 → ¬ ntf.Assigned i → (ntf'.Assigned i ↔ r.Assigns i)) := by
  by_cases hr : r.type = .string
  · unfold parseElement
    rw [if_pos hr]
    match i with
    | 0 =>
      refine ⟨_, _, rfl, fun _ _ => ?_⟩
      exact iff_of_true (Option.some_ne_none _) ⟨hr, fun h => absurd h (by norm_num)⟩
    | 1 =>
      refine ⟨_, _, rfl, fun _ _ => ?_⟩
      exact iff_of_true (Option.some_ne_none _) ⟨hr, fun h => absurd h (by norm_num)⟩
    | 2 =>
      obtain ⟨event_type, db, op, copies, hp, hdb, hop⟩ :=
        parseChannel_cuttable (hchan rfl hr) ntf
      have hlen : int32 op.length = op.length := int32_of_mem (by omega) hop
      refine ⟨_, _, hp, fun _ _ => ?_⟩
      exact iff_of_true ⟨Option.some_ne_none _, hdb, op, rfl, hlen⟩
        ⟨hr, fun h => absurd h (by norm_num)⟩
    | 3 =>
      refine ⟨_, _, rfl, fun _ _ => ?_⟩
      constructor
      · rintro ⟨target, htarget, hlen⟩
        cases htarget
        exact ⟨hr, fun _ => hlen ▸ int32_le _⟩
      · rintro ⟨-, hlen⟩
        exact ⟨r.str, rfl, int32_of_mem (by omega) (hlen rfl)⟩
    | _ + 4 => exact ⟨ntf, [], rfl, fun h => absurd h (by omega)⟩
  · -- what is no string sets nothing
    refine ⟨ntf, [], if_neg hr, fun _ hno => ?_⟩
    exact iff_of_false hno fun h => hr h.1

/-- The loop from element `i` on sets the outputs of the elements that are strings. -/
theorem parseElements_assigned (els : List RedisReply) {i : ℕ} (ntf : Ntf)
    (hchan : ∀ k r, els[k]? = some r → i + k = 2 → r.type = .string → Cuttable r.str)
    (hno : ∀ j, i ≤ j → j < 4 → ¬ ntf.Assigned j) :
    ∃ ntf' copies, parseElements i els ntf = .ok (none, ntf', copies) ∧
      (∀ j < i, (ntf'.Assigned j ↔ ntf.Assigned j)) ∧
      ∀ k, i + k < 4 →
        (ntf'.Assigned (i + k) ↔ ∃ r, els[k]? = some r ∧ r.Assigns (i + k)) := by
  induction els generalizing i ntf with
  | nil =>
    refine ⟨ntf, [], rfl, fun _ _ => Iff.rfl, fun k hk => ?_⟩
    refine iff_of_false (hno _ (by omega) hk) ?_
    rintro ⟨r, hr, -⟩
    cases hr
  | cons r els ih =>
    obtain ⟨ntf₁, copies₁, hp₁, hset₁⟩ :=
      parseElement_assigned ntf (i := i) fun hi hr => hchan 0 r rfl hi hr
    have hkeep₁ : ∀ j ≠ i, (ntf₁.Assigned j ↔ ntf.Assigned j) :=
      fun j hj => parseElement_keeps hp₁ hj
    obtain ⟨ntf₂, copies₂, hp₂, hkeep₂, hset₂⟩ := @ih (i + 1) ntf₁
      (fun k r' hr' hi => hchan (k + 1) r' hr' (by omega))
      (fun j hij hj => by
        rw [hkeep₁ j (by omega)]
        exact hno j (by omega) hj)
    refine ⟨ntf₂, copies₁ ++ copies₂, ?_, fun j hj => ?_, fun k hk => ?_⟩
    · rw [parseElements, hp₁]
      dsimp only
      rw [hp₂]
    · rw [hkeep₂ j (by omega), hkeep₁ j (by omega)]
    · rcases k with _ | k
      · rw [hkeep₂ _ (by omega)]
        simpa using hset₁ hk (hno i le_rfl hk)
      · rw [show i + (k + 1) = i + 1 + k by ring]
        simpa using hset₂ k (by omega)

/-! ### The whole reply -/

/-- After the loop exactly the outputs of the strings among the first four elements are set. -/
theorem parse_certified_iff {els : List RedisReply} {str : List UInt8}
    (hchan : ChannelOk ⟨.array, str, els⟩) (hne : els ≠ []) (ntf : Ntf) :
    ∃ ntf' copies, redis_parse_keyspace_notification ⟨.array, str, els⟩ ntf =
        .ok ⟨int32 els.length, ntf', copies⟩ ∧ (ntf'.Certified ↔ FourStrings els) := by
  obtain ⟨ntf', copies, hp, -, hset⟩ := @parseElements_assigned els 0 ntf.clear
    (fun k r hr hk => hchan r (by rw [← hk, Nat.zero_add]; exact hr))
    fun j _ hj => not_assigned_clear ntf hj
  have hcount : ¬ els.length < 1 := by
    have := List.length_pos_of_ne_nil hne
    omega
  refine ⟨ntf', copies, ?_, ?_⟩
  · unfold redis_parse_keyspace_notification
    rw [if_neg (by simp), if_neg hcount, hp]
  · rw [certified_iff]
    refine forall₂_congr fun j hj => ?_
    have hj' := hset j (by omega)
    rw [Nat.zero_add] at hj'
    exact hj'

/-- **The threshold.**  On a reply whose channel name, if there is one, can be cut, a value of at
least 4 certifies the outputs exactly if an array of that many elements begins with four
strings. -/
theorem certifies_iff {reply : RedisReply} (hchan : ChannelOk reply) (ntf : Ntf) :
    Certifies reply ntf ↔
      (reply.type = .array → 4 ≤ int32 reply.element.length → FourStrings reply.element) := by
  obtain ⟨type, str, els⟩ := reply
  by_cases htype : type = .array
  · subst htype
    by_cases hne : els = []
    · subst hne
      refine iff_of_true ⟨_, rfl, fun h => ?_⟩ fun _ h => ?_
      · exact absurd h (by norm_num)
      · exact absurd h (by norm_num)
    · obtain ⟨ntf', copies, hp, hiff⟩ := parse_certified_iff hchan hne ntf
      constructor
      · rintro ⟨p, hp', hcert⟩ - h4
        obtain rfl := Except.ok.inj (hp.symm.trans hp')
        exact hiff.1 (hcert h4)
      · intro h
        exact ⟨_, hp, fun h4 => hiff.2 (h rfl h4)⟩
  · refine iff_of_true ⟨⟨-1, ntf, []⟩, if_pos htype, fun h => ?_⟩ fun h => absurd h htype
    exact absurd h (by norm_num)

theorem cuttable_keyevent : Cuttable (ascii "__keyevent@0__:set") :=
  WellFormed.cuttable ⟨_, _, _, documented_keyevent⟩

/-- Five strings. -/
theorem certifies_five : Certifies (strings [ascii "pmessage", ascii "__key*@*__:*",
    ascii "__keyevent@0__:set", ascii "foo", []]) ntf₀ := by
  refine (certifies_iff (fun r hr _ => ?_) ntf₀).2 fun _ _ j hj => ?_
  · cases hr
    exact cuttable_keyevent
  · match j, hj with
    | 0, _ => exact ⟨_, rfl, rfl, by simp⟩
    | 1, _ => exact ⟨_, rfl, rfl, by simp⟩
    | 2, _ => exact ⟨_, rfl, rfl, by simp⟩
    | 3, _ => exact ⟨_, rfl, rfl, by decide⟩

/-- With a nil in place of the key the parser returns 4 and sets no key. -/
theorem not_certifies_nil :
    let reply : RedisReply := ⟨.array, [], [.ofString (ascii "pmessage"),
      .ofString (ascii "__keyevent@*__:*"), .ofString (ascii "__keyevent@0__:set"),
      ⟨.nil, [], []⟩]⟩
    ChannelOk reply ∧ (∃ p, redis_parse_keyspace_notification reply ntf₀ = .ok p ∧ p.ret = 4 ∧
      p.ntf.ntf_target = none) ∧ ¬ Certifies reply ntf₀ := by
  refine ⟨fun r hr _ => ?_, ⟨_, rfl, rfl, rfl⟩, ?_⟩
  · cases hr
    exact cuttable_keyevent
  · rintro ⟨p, hp, hcert⟩
    cases hp
    obtain ⟨target, htarget, -⟩ := (hcert (by decide)).ntf_target
    cases htarget

end Redis
