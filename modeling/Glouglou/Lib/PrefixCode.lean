import Mathlib.Data.List.Basic

/-!
# Prefix codes

Words one after another, none of which is the start of another: a stream is cut into them in one
way (`flatten_unique`), also when it ends within a word.
-/

namespace PrefixCode

variable {α : Type*} {P : List α → Prop}

/-- Of two words at the start of a stream none is longer. -/
def PrefixFree (P : List α → Prop) : Prop :=
  ∀ ⦃x y r s⦄, P x → P y → x ++ r = y ++ s → x = y

/-- What has no word in front. -/
def WordFree (P : List α → Prop) (r : List α) : Prop := ∀ ⦃y s⦄, P y → r ≠ y ++ s

theorem wordFree_nil (hnil : ¬ P []) : WordFree P [] := by
  intro y s hy h
  rw [(List.append_eq_nil_iff.1 h.symm).1] at hy
  exact hnil hy

/-- A stream is cut into words in one way. -/
theorem flatten_unique (hP : PrefixFree P) {xs ys : List (List α)} {r s : List α}
    (hxs : ∀ x ∈ xs, P x) (hys : ∀ y ∈ ys, P y) (hr : WordFree P r) (hs : WordFree P s)
    (h : xs.flatten ++ r = ys.flatten ++ s) : xs = ys ∧ r = s := by
  induction xs generalizing ys with
  | nil =>
    rcases ys with _ | ⟨y, ys⟩
    · exact ⟨rfl, h⟩
    · rw [List.flatten_cons, List.append_assoc] at h
      exact absurd h (hr (hys y List.mem_cons_self))
  | cons x xs ih =>
    rcases ys with _ | ⟨y, ys⟩
    · rw [List.flatten_cons, List.append_assoc] at h
      exact absurd h.symm (hs (hxs x List.mem_cons_self))
    · rw [List.flatten_cons, List.flatten_cons, List.append_assoc, List.append_assoc] at h
      obtain rfl := hP (hxs x List.mem_cons_self) (hys y List.mem_cons_self) h
      obtain ⟨rfl, rfl⟩ := ih (fun z hz => hxs z (List.mem_cons_of_mem _ hz))
        (fun z hz => hys z (List.mem_cons_of_mem _ hz)) (List.append_cancel_left h)
      exact ⟨rfl, rfl⟩

/-- A stream of whole words. -/
theorem flatten_injective (hP : PrefixFree P) (hnil : ¬ P []) {xs ys : List (List α)}
    (hxs : ∀ x ∈ xs, P x) (hys : ∀ y ∈ ys, P y) (h : xs.flatten = ys.flatten) : xs = ys :=
  (flatten_unique hP hxs hys (wordFree_nil hnil) (wordFree_nil hnil) (congrArg (· ++ []) h)).1

end PrefixCode
