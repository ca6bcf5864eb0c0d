import Mathlib.Tactic

/-!
# Text made of lines

Records are rendered one after another, each followed by a separator; a reader cuts the text at
the separators and reads each line by itself.  If no rendering has a separator in it and each is
read as its record, the reader gets the records back (`readBack_text`).  If only the start of a
rendering up to its first separator is known to be read, the reader gets at least one record for
each, and all of them exactly if each start is read as its record (`readBack_eq_self`).
-/

namespace Lines

variable {α κ : Type*} [DecidableEq α] (sep : α)

/-- The lines of a text that are complete. -/
def lines (l : List α) : List (List α) := (l.splitOn sep).dropLast

/-- The records rendered, each as a line or, if it has separators in it, as several. -/
def text (render : κ → List α) (ks : List κ) : List α := ks.flatMap fun k => render k ++ [sep]

/-- The records read. -/
def readBack (read : List α → Option κ) (l : List α) : List κ := (lines sep l).filterMap read

theorem lines_append (x l : List α) : lines sep (x ++ sep :: l) = x.splitOn sep ++ lines sep l := by
  rw [lines, List.splitOn_append_cons_self,
    List.dropLast_append_of_ne_nil (List.splitOn_ne_nil sep l)]
  rfl

/-- A line ends at the first separator. -/
theorem exists_splitOn (x : List α) :
    ∃ rest, x.splitOn sep = x.takeWhile (· ≠ sep) :: rest := by
  induction x with
  | nil => exact ⟨[], rfl⟩
  | cons c x ih =>
    obtain ⟨rest, h⟩ := ih
    rw [List.splitOn_cons_eq_if_modifyHead, h]
    by_cases hc : c = sep
    · rw [if_pos (by simpa using hc), List.takeWhile_cons_of_neg (by simpa using hc)]
      exact ⟨_, rfl⟩
    · rw [if_neg (by simpa using hc), List.takeWhile_cons_of_pos (by simpa using hc)]
      exact ⟨rest, rfl⟩

theorem readBack_cons (read : List α → Option κ) (render : κ → List α) (k : κ) (ks : List κ) :
    readBack sep read (text sep render (k :: ks)) =
      ((render k).splitOn sep).filterMap read ++ readBack sep read (text sep render ks) := by
  rw [readBack, text, List.flatMap_cons, List.append_assoc, List.singleton_append, lines_append,
    List.filterMap_append]
  rfl

/-- What is rendered without separators, and read as it was, is read back. -/
theorem readBack_text {read : List α → Option κ} {render : κ → List α} {ks : List κ}
    (h : ∀ k ∈ ks, sep ∉ render k ∧ read (render k) = some k) :
    readBack sep read (text sep render ks) = ks := by
  induction ks with
  | nil => rfl
  | cons k ks ih =>
    obtain ⟨hsep, hread⟩ := h k List.mem_cons_self
    rw [readBack_cons, List.splitOn_eq_singleton hsep,
      ih fun k' hk' => h k' (List.mem_cons_of_mem _ hk')]
    simp only [List.filterMap_cons, hread, List.filterMap_nil, List.singleton_append]

/-- Such records are determined by their text. -/
theorem text_injective {read : List α → Option κ} {render : κ → List α} {ks ks' : List κ}
    (h : ∀ k ∈ ks, sep ∉ render k ∧ read (render k) = some k)
    (h' : ∀ k ∈ ks', sep ∉ render k ∧ read (render k) = some k)
    (heq : text sep render ks = text sep render ks') : ks = ks' := by
  rw [← readBack_text sep h, heq, readBack_text sep h']

section First

variable {sep} {read : List α → Option κ} {render : κ → List α} {first : κ → κ} {ks : List κ}

/-- A record whose first line is read. -/
theorem readBack_first {k : κ}
    (h : read ((render k).takeWhile (· ≠ sep)) = some (first k)) (ks : List κ) :
    ∃ more, readBack sep read (text sep render (k :: ks)) =
      first k :: (more ++ readBack sep read (text sep render ks)) := by
  obtain ⟨rest, hrest⟩ := exists_splitOn sep (render k)
  refine ⟨rest.filterMap read, ?_⟩
  rw [readBack_cons, hrest, List.filterMap_cons_some h]
  rfl

/-- At least one record is read for each. -/
theorem length_le_readBack
    (h : ∀ k ∈ ks, read ((render k).takeWhile (· ≠ sep)) = some (first k)) :
    ks.length ≤ (readBack sep read (text sep render ks)).length := by
  induction ks with
  | nil => exact Nat.zero_le _
  | cons k ks ih =>
    obtain ⟨more, hmore⟩ := readBack_first (h k List.mem_cons_self) ks
    have hks := ih fun k' hk' => h k' (List.mem_cons_of_mem _ hk')
    rw [hmore, List.length_cons, List.length_cons, List.length_append]
    omega

/-- Records that are read back are read from their first lines. -/
theorem readBack_eq_self
    (h : ∀ k ∈ ks, read ((render k).takeWhile (· ≠ sep)) = some (first k))
    (heq : readBack sep read (text sep render ks) = ks) : ∀ k ∈ ks, first k = k := by
  induction ks with
  | nil => simp
  | cons k ks ih =>
    have hks : ∀ k' ∈ ks, read ((render k').takeWhile (· ≠ sep)) =
        some (first k') := fun k' hk' => h k' (List.mem_cons_of_mem _ hk')
    obtain ⟨more, hmore⟩ := readBack_first (h k List.mem_cons_self) ks
    rw [hmore, List.cons.injEq] at heq
    obtain ⟨hfirst, htail⟩ := heq
    -- the rest gives a record for each, so nothing else was read of the first
    have hnil : more = [] := by
      have hlen := congrArg List.length htail
      have hle := length_le_readBack hks
      rw [List.length_append] at hlen
      exact List.length_eq_zero_iff.1 (by omega)
    rw [hnil, List.nil_append] at htail
    intro k' hk'
    rcases List.mem_cons.1 hk' with rfl | hk'
    · exact hfirst
    · exact ih hks htail k' hk'

end First

end Lines
