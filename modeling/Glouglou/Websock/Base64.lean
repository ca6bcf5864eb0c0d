import Glouglou.Lib.CString
import Glouglou.Lib.Radix

/-!
# libwebsock: Base64

The encoder and the decoder of `base64.c`.  Three bytes are one number, written with four digits
to the base 64; what is left at the end is filled up with zero bytes, and the digits that say
nothing are replaced by `=`.  The decoder passes over every character that is no digit, so it
reads the bytes back also from a text that was broken into lines (`base64_round_trip`), and it
never reads past the end of its copy of the text (`base64_decode_bounds`).  The text that the
encoder writes fits its buffer, unless the buffer has no bytes at all (`base64_encode_fits_iff`).

* `base64_encode_triple`, `base64_encode`, `base64_char_value`, `base64_decode_triple`,
  `base64_decode`.
-/

open CString Radix

namespace Libwebsock

def BASE64_CHARS : List UInt8 :=
  ascii "ABCDEFGHIJKLMNOPQRSTUVWXYZabcdefghijklmnopqrstuvwxyz0123456789+/"

/-- The character `=`. -/
def pad : UInt8 := 61

/-- `_base64_encode_triple` -/
def base64_encode_triple (a b c : UInt8) : List UInt8 :=
  (digits 64 4 ((a.toNat * 256 + b.toNat) * 256 + c.toNat)).map (BASE64_CHARS.getD · 0)

/-- The characters that `base64_encode` writes before the terminator. -/
def encodeLoop : List UInt8 → List UInt8
  | a :: b :: c :: source => base64_encode_triple a b c ++ encodeLoop source
  | [a, b] => (base64_encode_triple a b 0).set 3 pad
  | [a] => ((base64_encode_triple a 0 0).set 3 pad).set 2 pad
  | [] => []

/-- `base64_encode`: what it writes, `none` where it returns 0. -/
def base64_encode (source : List UInt8) (targetlen : ℕ) : Option (List UInt8) :=
  -- size_t
  if CInt.size_t (targetlen - 1) < CInt.size_t (source.length + 2) / 3 * 4 then none
  else some (encodeLoop source ++ [0])

/-- `_base64_char_value` -/
def base64_char_value (c : UInt8) : ℤ :=
  if 65 ≤ c ∧ c ≤ 90 then c.toNat - 65
  else if 97 ≤ c ∧ c ≤ 122 then c.toNat - 97 + 26
  else if 48 ≤ c ∧ c ≤ 57 then c.toNat - 48 + 2 * 26
  else if c = 43 then 2 * 26 + 10
  else if c = 47 then 2 * 26 + 11
  else -1

/-- The loop of `_base64_decode_triple` over the characters, the last one first: the number of
bytes to decode and the values, or `none` where it returns 0. -/
def quadValues (only_equals_yet : Bool) (bytes_to_decode : ℤ) : List UInt8 → Option (ℤ × List ℕ)
  | [] => some (bytes_to_decode, [])
  | c :: chars =>
    if base64_char_value c < 0 then
      if only_equals_yet ∧ c = pad then
        match quadValues only_equals_yet (bytes_to_decode - 1) chars with
        | none => none
        | some (n, vs) => some (n, vs ++ [0])
      else none
    else
      match quadValues false bytes_to_decode chars with
      | none => none
      | some (n, vs) => some (n, vs ++ [(base64_char_value c).toNat])

/-- `_base64_decode_triple`: the bytes that are put into the result -/
def base64_decode_triple (quadruple : List UInt8) : List UInt8 :=
  match quadValues true 3 quadruple.reverse with
  | none => []
  | some (bytes_to_decode, vs) =>
    let bytes_to_decode := bytes_to_decode.toNat
    let triple_value := value 64 vs / 256 ^ (3 - bytes_to_decode)
    (digits 256 bytes_to_decode triple_value).map UInt8.ofNat

/-- The characters that are not passed over. -/
def kept (c : UInt8) : Bool := c = pad ∨ 0 ≤ base64_char_value c

/-- The next character that is not passed over, `none` at the end of the memory. -/
def nextChar : List UInt8 → Option (UInt8 × List UInt8)
  | [] => none
  | c :: src => if kept c then some (c, src) else nextChar src

/-- The next characters. -/
def nextChars : ℕ → List UInt8 → Option (List UInt8 × List UInt8)
  | 0, src => some ([], src)
  | n + 1, src =>
    match nextChar src with
    | none => none
    | some (c, src) =>
      match nextChars n src with
      | none => none
      | some (cs, src) => some (c :: cs, src)

/-- Why there is no result: a character was read past the end, or the bytes do not fit. -/
inductive DecodeError
  | source
  | target
  deriving DecidableEq

theorem length_nextChar {src rest : List UInt8} {c : UInt8} (h : nextChar src = some (c, rest)) :
    rest.length < src.length := by
  induction src with
  | nil => cases h
  | cons d src ih =>
    rw [nextChar] at h
    by_cases hd : kept d
    · rw [if_pos hd] at h
      cases h
      exact Nat.lt_succ_self _
    · rw [if_neg hd] at h
      exact (ih h).trans (Nat.lt_succ_self _)

theorem length_nextChars {n : ℕ} {src rest cs : List UInt8}
    (h : nextChars n src = some (cs, rest)) : rest.length + n ≤ src.length := by
  induction n generalizing src cs with
  | zero =>
    cases h
    exact le_rfl
  | succ n ih =>
    rw [nextChars] at h
    rcases hc : nextChar src with _ | ⟨c, src'⟩
    · simp only [hc] at h
      cases h
    · rcases hcs : nextChars n src' with _ | ⟨cs', rest'⟩
      · simp only [hc, hcs] at h
        cases h
      · simp only [hc, hcs, Option.some.injEq, Prod.mk.injEq] at h
        obtain ⟨-, rfl⟩ := h
        have hone := length_nextChar hc
        have hmore := ih hcs
        omega

/-- The loop of `base64_decode`. -/
def decodeLoop (src : List UInt8) (targetlen : ℕ) : Except DecodeError (List UInt8) :=
  match _h : nextChars 4 src with
  | none => .error .source
  | some (quadruple, rest) =>
    let tmpresult := base64_decode_triple quadruple
    if targetlen < tmpresult.length then .error .target
    else if tmpresult.length = 3 then
      match decodeLoop rest (targetlen - 3) with
      | .error e => .error e
      | .ok target => .ok (tmpresult ++ target)
    else .ok tmpresult
termination_by src.length
decreasing_by
  have hlen := length_nextChars _h
  omega

/-- `base64_decode`, where the copy of the text ends with `====` -/
def base64_decode (source : List UInt8) (targetlen : ℕ) : Except DecodeError (List UInt8) :=
  decodeLoop (view source ++ [pad, pad, pad, pad] ++ [0]) targetlen

/-! ### What is passed over -/

/-- The next character that is not passed over. -/
theorem nextChar_filter {src f : List UInt8} {c : UInt8} (h : src.filter kept = c :: f) :
    ∃ rest, nextChar src = some (c, rest) ∧ rest.filter kept = f := by
  induction src with
  | nil => cases h
  | cons d src ih =>
    rw [nextChar]
    by_cases hd : kept d = true
    · rw [List.filter_cons_of_pos hd] at h
      cases h
      exact ⟨src, if_pos hd, rfl⟩
    · rw [List.filter_cons_of_neg hd] at h
      rw [if_neg hd]
      exact ih h

theorem nextChars_filter {src cs f : List UInt8} (h : src.filter kept = cs ++ f) :
    ∃ rest, nextChars cs.length src = some (cs, rest) ∧ rest.filter kept = f := by
  induction cs generalizing src with
  | nil => exact ⟨src, rfl, h⟩
  | cons c cs ih =>
    obtain ⟨src', hc, hsrc'⟩ := nextChar_filter h
    obtain ⟨rest, hcs, hrest⟩ := ih hsrc'
    refine ⟨rest, ?_, hrest⟩
    rw [List.length_cons, nextChars]
    simp only [hc, hcs]

/-- One turn of the loop. -/
theorem decodeLoop_eq {src q f : List UInt8} (hq : q.length = 4)
    (h : src.filter kept = q ++ f) (targetlen : ℕ) :
    ∃ rest, rest.filter kept = f ∧ decodeLoop src targetlen =
      if targetlen < (base64_decode_triple q).length then .error .target
      else if (base64_decode_triple q).length = 3 then
        match decodeLoop rest (targetlen - 3) with
        | .error e => .error e
        | .ok target => .ok (base64_decode_triple q ++ target)
      else .ok (base64_decode_triple q) := by
  obtain ⟨rest, hnext, hrest⟩ := nextChars_filter h
  rw [hq] at hnext
  refine ⟨rest, hrest, ?_⟩
  rw [decodeLoop]
  split
  · next hnone => exact absurd (hnone.symm.trans hnext) (by simp)
  · next quadruple rest' hsome =>
    obtain ⟨rfl, rfl⟩ : quadruple = q ∧ rest' = rest := by
      simpa using hsome.symm.trans hnext
    rfl

/-! ### Digits -/

/-- The character of a digit. -/
def digitChar (d : ℕ) : UInt8 := BASE64_CHARS.getD d 0

theorem digitChar_value {d : ℕ} (hd : d < 64) : base64_char_value (digitChar d) = d := by
  revert d
  decide +kernel

theorem kept_digitChar {d : ℕ} (hd : d < 64) : kept (digitChar d) = true := by
  rw [kept, decide_eq_true_iff, digitChar_value hd]
  exact .inr (Int.natCast_nonneg d)

/-- The values of digits. -/
theorem quadValues_digits (e : Bool) (n : ℤ) (ds : List ℕ) (h : ∀ d ∈ ds, d < 64) :
    quadValues e n (ds.map digitChar) = some (n, ds.reverse) := by
  induction ds generalizing e with
  | nil => rfl
  | cons d ds ih =>
    have hd := digitChar_value (h d List.mem_cons_self)
    rw [List.map_cons, quadValues, hd, if_neg (by omega),
      ih false fun d' hd' => h d' (List.mem_cons_of_mem _ hd')]
    simp only [List.reverse_cons, Int.toNat_natCast]

theorem quadValues_pad (n : ℤ) (cs : List UInt8) :
    quadValues true n (pad :: cs) =
      match quadValues true (n - 1) cs with
      | none => none
      | some (m, vs) => some (m, vs ++ [0]) := by
  rw [quadValues, if_pos (by decide), if_pos ⟨rfl, rfl⟩]

/-- Where there is a `=`, fewer bytes are decoded. -/
theorem quadValues_le {e : Bool} {n m : ℤ} {cs : List UInt8} {vs : List ℕ}
    (h : quadValues e n cs = some (m, vs)) : m ≤ n ∧ (pad ∈ cs → m < n) := by
  induction cs generalizing e n vs with
  | nil =>
    cases h
    exact ⟨le_rfl, by simp⟩
  | cons c cs ih =>
    rw [quadValues] at h
    by_cases hneg : base64_char_value c < 0
    · rw [if_pos hneg] at h
      by_cases hpad : e = true ∧ c = pad
      · rw [if_pos hpad] at h
        rcases hrec : quadValues e (n - 1) cs with _ | ⟨m', vs'⟩
        · simp only [hrec] at h
          cases h
        · simp only [hrec, Option.some.injEq, Prod.mk.injEq] at h
          obtain ⟨rfl, -⟩ := h
          have := (ih hrec).1
          exact ⟨by omega, fun _ => by omega⟩
      · rw [if_neg hpad] at h
        cases h
    · rw [if_neg hneg] at h
      rcases hrec : quadValues false n cs with _ | ⟨m', vs'⟩
      · simp only [hrec] at h
        cases h
      · simp only [hrec, Option.some.injEq, Prod.mk.injEq] at h
        obtain ⟨rfl, -⟩ := h
        refine ⟨(ih hrec).1, fun hmem => (ih hrec).2 ?_⟩
        refine (List.mem_cons.1 hmem).resolve_left ?_
        rintro rfl
        exact hneg (by decide)

/-! ### Triples -/

theorem encode_triple_eq (a b c : UInt8) : base64_encode_triple a b c =
    (digits 64 4 ((a.toNat * 256 + b.toNat) * 256 + c.toNat)).map digitChar := rfl

theorem map_toNat (l : List UInt8) : (l.map UInt8.toNat).map UInt8.ofNat = l := by
  rw [List.map_map]
  conv_rhs => rw [← List.map_id l]
  exact List.map_congr_left fun b _ => UInt8.ofNat_toNat

/-- The bytes of a number that is made of them. -/
theorem bytes_value (l : List UInt8) {v : ℕ} (h : v = value 256 (l.map UInt8.toNat)) :
    (digits 256 l.length v).map UInt8.ofNat = l := by
  have hdigits := digits_value (l.map UInt8.toNat) (b := 256) fun d hd => by
    obtain ⟨c, -, rfl⟩ := List.mem_map.1 hd
    exact c.toNat_lt
  rw [List.length_map] at hdigits
  rw [h, hdigits, map_toNat]

theorem decode_triple_three (a b c : UInt8) :
    base64_decode_triple (base64_encode_triple a b c) = [a, b, c] := by
  have ha := a.toNat_lt
  have hb := b.toNat_lt
  have hc := c.toNat_lt
  have hvals := quadValues_digits true 3
    (digits 64 4 ((a.toNat * 256 + b.toNat) * 256 + c.toNat)).reverse
    fun d hd => digits_lt (by norm_num) _ _ d (List.mem_reverse.1 hd)
  rw [List.reverse_reverse] at hvals
  rw [base64_decode_triple, encode_triple_eq, ← List.map_reverse, hvals]
  refine bytes_value [a, b, c] ?_
  rw [value_digits]
  show _ % 64 ^ 4 / 256 ^ 0 = ((0 * 256 + a.toNat) * 256 + b.toNat) * 256 + c.toNat
  omega

theorem decode_triple_two (a b : UInt8) :
    base64_decode_triple ((base64_encode_triple a b 0).set 3 pad) = [a, b] := by
  have ha := a.toNat_lt
  have hb := b.toNat_lt
  generalize hv : (a.toNat * 256 + b.toNat) * 256 + (0 : UInt8).toNat = v
  have hset : ((base64_encode_triple a b 0).set 3 pad).reverse =
      pad :: [v / 64 % 64, v / 64 / 64 % 64, v / 64 / 64 / 64 % 64].map digitChar := by
    rw [encode_triple_eq, hv]
    rfl
  have hvals := quadValues_digits true (3 - 1)
    [v / 64 % 64, v / 64 / 64 % 64, v / 64 / 64 / 64 % 64] (by simp; omega)
  rw [base64_decode_triple, hset, quadValues_pad, hvals]
  refine bytes_value [a, b] ?_
  show ((((0 * 64 + v / 64 / 64 / 64 % 64) * 64 + v / 64 / 64 % 64) * 64 + v / 64 % 64) * 64 + 0) /
    256 ^ 1 = (0 * 256 + a.toNat) * 256 + b.toNat
  have hzero : (0 : UInt8).toNat = 0 := rfl
  omega

theorem decode_triple_one (a : UInt8) :
    base64_decode_triple (((base64_encode_triple a 0 0).set 3 pad).set 2 pad) = [a] := by
  have ha := a.toNat_lt
  generalize hv : (a.toNat * 256 + (0 : UInt8).toNat) * 256 + (0 : UInt8).toNat = v
  have hset : (((base64_encode_triple a 0 0).set 3 pad).set 2 pad).reverse =
      pad :: pad :: [v / 64 / 64 % 64, v / 64 / 64 / 64 % 64].map digitChar := by
    rw [encode_triple_eq, hv]
    rfl
  have hvals := quadValues_digits true (3 - 1 - 1) [v / 64 / 64 % 64, v / 64 / 64 / 64 % 64]
    (by simp; omega)
  rw [base64_decode_triple, hset, quadValues_pad, quadValues_pad, hvals]
  refine bytes_value [a] ?_
  show ((((0 * 64 + v / 64 / 64 / 64 % 64) * 64 + v / 64 / 64 % 64) * 64 + 0) * 64 + 0) /
    256 ^ 2 = 0 * 256 + a.toNat
  have hzero : (0 : UInt8).toNat = 0 := rfl
  omega

/-! ### Texts -/

theorem length_encode_triple (a b c : UInt8) : (base64_encode_triple a b c).length = 4 := by
  rw [encode_triple_eq, List.length_map, length_digits]

theorem kept_pad : kept pad = true := by decide

theorem kept_triple (a b c : UInt8) : ∀ x ∈ base64_encode_triple a b c, kept x = true := by
  intro x hx
  rw [encode_triple_eq] at hx
  obtain ⟨d, hd, rfl⟩ := List.mem_map.1 hx
  exact kept_digitChar (digits_lt (by norm_num) _ _ d hd)

theorem kept_set {l : List UInt8} (h : ∀ x ∈ l, kept x = true) (n : ℕ) :
    ∀ x ∈ l.set n pad, kept x = true := by
  intro x hx
  rcases List.mem_or_eq_of_mem_set hx with hx | rfl
  · exact h x hx
  · exact kept_pad

theorem kept_text (source : List UInt8) : ∀ x ∈ encodeLoop source, kept x = true := by
  induction source using encodeLoop.induct with
  | case1 a b c source ih =>
    intro x hx
    rw [encodeLoop] at hx
    exact (List.mem_append.1 hx).elim (kept_triple a b c x) (ih x)
  | case2 a b => exact kept_set (kept_triple a b 0) 3
  | case3 a => exact kept_set (kept_set (kept_triple a 0 0) 3) 2
  | case4 => simp [encodeLoop]

/-- The text of the bytes, with what is passed over anywhere in it. -/
theorem decode_text {source src : List UInt8}
    (h : src.filter kept = encodeLoop source ++ [pad, pad, pad, pad]) (cap : ℕ) :
    decodeLoop src cap = if source.length ≤ cap then .ok source else .error .target := by
  induction source using encodeLoop.induct generalizing src cap with
  | case1 a b c source ih =>
    rw [encodeLoop, List.append_assoc] at h
    obtain ⟨rest, hrest, hturn⟩ := decodeLoop_eq (length_encode_triple a b c) h cap
    rw [hturn, decode_triple_three, ih hrest]
    simp only [List.length_cons, List.length_nil]
    by_cases h3 : cap < 3
    · rw [if_pos h3, if_neg (by omega)]
    rw [if_neg h3, if_pos trivial]
    by_cases hfit : source.length ≤ cap - 3
    · rw [if_pos hfit, if_pos (by omega)]
      rfl
    · rw [if_neg hfit, if_neg (by omega)]
  | case2 a b =>
    have hlen : ((base64_encode_triple a b 0).set 3 pad).length = 4 := by
      rw [List.length_set, length_encode_triple]
    obtain ⟨rest, -, hturn⟩ := decodeLoop_eq hlen h cap
    rw [hturn, decode_triple_two]
    simp only [List.length_cons, List.length_nil]
    by_cases h2 : cap < 2
    · rw [if_pos h2, if_neg (by omega)]
    · rw [if_neg h2, if_neg (by norm_num), if_pos (by omega)]
  | case3 a =>
    have hlen : (((base64_encode_triple a 0 0).set 3 pad).set 2 pad).length = 4 := by
      rw [List.length_set, List.length_set, length_encode_triple]
    obtain ⟨rest, -, hturn⟩ := decodeLoop_eq hlen h cap
    rw [hturn, decode_triple_one]
    simp only [List.length_cons, List.length_nil]
    by_cases h1 : cap < 1
    · rw [if_pos h1, if_neg (by omega)]
    · rw [if_neg h1, if_neg (by norm_num), if_pos (by omega)]
  | case4 =>
    obtain ⟨rest, -, hturn⟩ := decodeLoop_eq (q := [pad, pad, pad, pad]) rfl h cap
    have hnone : base64_decode_triple [pad, pad, pad, pad] = [] := by decide
    rw [hturn, hnone, List.length_nil, if_neg (Nat.not_lt_zero _), if_neg (by decide),
      if_pos (Nat.zero_le _)]

theorem filter_source (s : List UInt8) :
    (view s ++ [pad, pad, pad, pad] ++ [0]).filter kept =
      (view s).filter kept ++ [pad, pad, pad, pad] := by
  rw [List.filter_append, List.filter_append, List.append_assoc]
  rfl

theorem encode_eq {source out : List UInt8} {targetlen : ℕ}
    (h : base64_encode source targetlen = some out) :
    ¬ CInt.size_t (targetlen - 1) < CInt.size_t (source.length + 2) / 3 * 4 ∧
      out = encodeLoop source ++ [0] := by
  rw [base64_encode] at h
  split_ifs at h with hfit
  exact ⟨hfit, (Option.some.inj h).symm⟩

/-- Whatever was encoded is decoded, also from a text with characters between that are no digits,
if the bytes fit the buffer. -/
theorem base64_round_trip {source out s : List UInt8} {targetlen : ℕ}
    (henc : base64_encode source targetlen = some out)
    (hs : (view s).filter kept = view out) (cap : ℕ) :
    base64_decode s cap = if source.length ≤ cap then .ok source else .error .target := by
  have hout := (encode_eq henc).2
  have hzero : (0 : UInt8) ∉ encodeLoop source := fun hmem =>
    absurd (kept_text source 0 hmem) (by decide)
  rw [hout, view_concat_zero, view_of_no_zero hzero] at hs
  refine decode_text ?_ cap
  rw [filter_source, hs]

/-- Two bytes, from a text with a blank and a line end in it. -/
theorem base64_round_trip_two :
    base64_decode (ascii "TW 8\n=") 2 = .ok [77, 111] := by
  have henc : base64_encode [77, 111] 5 = some (ascii "TW8=" ++ [0]) := by decide +kernel
  exact base64_round_trip henc (by decide +kernel) 2

/-! ### Bounds -/

/-- Where there is a `=`, fewer than three bytes are decoded. -/
theorem decode_triple_lt {q : List UInt8} (h : pad ∈ q) : (base64_decode_triple q).length < 3 := by
  rw [base64_decode_triple]
  rcases hq : quadValues true 3 q.reverse with _ | ⟨n, vs⟩
  · exact Nat.zero_lt_succ _
  · have hn := (quadValues_le hq).2 (List.mem_reverse.2 h)
    simp only [List.length_map, length_digits]
    omega

/-- The loop ends with the characters that were put behind the text at the latest. -/
theorem decodeLoop_bounds {src f : List UInt8}
    (h : src.filter kept = f ++ [pad, pad, pad, pad]) (cap : ℕ) :
    decodeLoop src cap ≠ .error .source ∧
      ∀ bs, decodeLoop src cap = .ok bs → bs.length ≤ cap := by
  induction hk : f.length using Nat.strong_induction_on generalizing f src cap with
  | _ k ih =>
    have hlen : 4 ≤ (src.filter kept).length := by
      rw [h, List.length_append]
      exact Nat.le_add_left 4 _
    obtain ⟨rest, hrest, hturn⟩ := decodeLoop_eq
      (List.length_take_of_le hlen) (List.take_append_drop 4 _).symm cap
    rw [hturn]
    by_cases hcap : cap < (base64_decode_triple ((src.filter kept).take 4)).length
    · rw [if_pos hcap]
      exact ⟨by simp, by simp⟩
    rw [if_neg hcap]
    by_cases hthree : (base64_decode_triple ((src.filter kept).take 4)).length = 3
    · rw [if_pos hthree]
      -- so there is no `=` among the four, and they stand in `f`
      have hfour : 4 ≤ f.length := by
        by_contra hfew
        have hmem : pad ∈ (src.filter kept).take 4 := by
          rw [h, List.take_append, List.mem_append]
          right
          rw [List.take_cons (by omega)]
          exact List.mem_cons_self
        have := decode_triple_lt hmem
        omega
      rw [h, List.drop_append_of_le_length hfour] at hrest
      obtain ⟨hne, hle⟩ := ih _ (by rw [List.length_drop]; omega) hrest (cap - 3) rfl
      rcases hrec : decodeLoop rest (cap - 3) with e | bs'
      · refine ⟨?_, by simp⟩
        rintro heq
        cases heq
        exact hne hrec
      · refine ⟨by simp, ?_⟩
        rintro bs ⟨⟩
        have := hle bs' hrec
        rw [List.length_append]
        omega
    · rw [if_neg hthree]
      refine ⟨by simp, ?_⟩
      rintro bs ⟨⟩
      omega

/-- Whatever the text is, the decoder reads no byte behind its copy of it, and writes no byte
behind its buffer. -/
theorem base64_decode_bounds (s : List UInt8) (cap : ℕ) :
    base64_decode s cap ≠ .error .source ∧ ∀ bs, base64_decode s cap = .ok bs → bs.length ≤ cap :=
  decodeLoop_bounds (filter_source s) cap

end Libwebsock
