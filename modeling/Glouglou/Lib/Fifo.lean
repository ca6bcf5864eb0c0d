import Glouglou.Lib.Run

/-!
# Queues

What a buffer between a producer and a consumer is for.  A `Fifo` over any alphabet is the list of
what went in and has not come out: `push` adds at the back, `pop n` hands over the first `n`
elements.  Nothing is lost, duplicated or reordered (`Fifo.conservation`).

`Batch` is the queue whose elements leave all together or not at all: an attempt hands over
everything that is waiting, in one group, and keeps it waiting when the attempt fails
(`Batch.conservation`).
-/

open Transducer

variable {α : Type*}

namespace Fifo

/-- What happens to a queue. -/
inductive Op (α : Type*)
  | push (xs : List α)
  | pop (n : ℕ)

/-- What an operation puts in. -/
def Op.pushed : Op α → List α
  | .push xs => xs
  | .pop _ => []

/-- One operation: from the queue `q` it hands over `out` and leaves `q'`. -/
def Step (q : List α) : Op α → List α → List α → Prop
  | .push xs, out, q' => out = [] ∧ q' = q ++ xs
  | .pop n, out, q' => out = q.take n ∧ q' = q.drop n

/-- What was handed over, followed by what still waits, is what was there and what went in. -/
theorem conservation {q q' out : List α} {ops : List (Op α)} (h : Run Step q ops out q') :
    out ++ q' = q ++ ops.flatMap Op.pushed := by
  induction h with
  | nil => simp
  | @snoc ops out q₁ op out₁ q₂ _ hs ih =>
    rw [List.flatMap_append, ← List.append_assoc q, ← ih, List.flatMap_singleton]
    cases op with
    | push xs => obtain ⟨rfl, rfl⟩ := hs; simp [Op.pushed]
    | pop n => obtain ⟨rfl, rfl⟩ := hs; simp [Op.pushed]

end Fifo

namespace Batch

/-- What happens to a batch queue: an element is added, or all the waiting ones, joined into
`joined`, are handed over, with success or not. -/
inductive Op (α : Type*)
  | add (x : List α)
  | attempt (joined : List α) (ok : Bool)

/-- What an operation adds. -/
def Op.added : Op α → List (List α)
  | .add x => [x]
  | .attempt _ _ => []

/-- One operation on the waiting elements; the group that leaves is the output. -/
def Step (q : List (List α)) : Op α → List (List (List α)) → List (List α) → Prop
  | .add x, out, q' => out = [] ∧ q' = q ++ [x]
  | .attempt joined true, out, q' => joined = q.flatten ∧ out = [q] ∧ q' = []
  | .attempt joined false, out, q' => joined = q.flatten ∧ out = [] ∧ q' = q

/-- The elements that wait after an operation. -/
def next (q : List (List α)) : Op α → List (List α)
  | .add x => q ++ [x]
  | .attempt _ true => []
  | .attempt _ false => q

theorem run_next {q q' : List (List α)} {groups : List (List (List α))} {ops : List (Op α)}
    (h : Run Step q ops groups q') : q' = ops.foldl next q := by
  induction h with
  | nil => rfl
  | @snoc ops out q₁ op out₁ q₂ _ hs ih =>
    rw [List.foldl_append, ← ih]
    rcases op with x | ⟨joined, ok⟩
    · exact hs.2
    · cases ok with
      | true => exact hs.2.2
      | false => exact hs.2.2

/-- What an attempt hands over is everything that waits. -/
theorem attempt_eq {q q' : List (List α)} {groups : List (List (List α))}
    {pre post : List (Op α)} {joined : List α} {ok : Bool}
    (h : Run Step q (pre ++ .attempt joined ok :: post) groups q') :
    joined = (pre.foldl next q).flatten := by
  obtain ⟨m, _, _, h₁, h₂, -⟩ := h.split
  obtain ⟨m', _, _, hs, -, -⟩ := h₂.cons_inv
  rw [← run_next h₁]
  cases ok with
  | true => exact hs.1
  | false => exact hs.1

/-- The groups that left, followed by what still waits, are the elements added, each once and
in order. -/
theorem conservation {q q' : List (List α)} {groups : List (List (List α))} {ops : List (Op α)}
    (h : Run Step q ops groups q') :
    groups.flatten ++ q' = q ++ ops.flatMap Op.added := by
  induction h with
  | nil => simp
  | @snoc ops out q₁ op out₁ q₂ _ hs ih =>
    rw [List.flatMap_append, ← List.append_assoc q, ← ih, List.flatMap_singleton]
    rcases op with x | ⟨joined, ok⟩
    · obtain ⟨rfl, rfl⟩ := hs; simp [Op.added]
    · cases ok with
      | true => obtain ⟨-, rfl, rfl⟩ := hs; simp [Op.added]
      | false => obtain ⟨-, rfl, rfl⟩ := hs; simp [Op.added]

end Batch
