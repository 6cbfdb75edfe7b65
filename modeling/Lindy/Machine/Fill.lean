import Mathlib.Data.List.Forall2

/-! # Filling a buffer

A loop that makes one item after the other and writes each at its index ends at the first item
that cannot be made. As long as there are no more items than places it never writes out of
bounds, and what it leaves is the list of the items.
-/

namespace Lindy.Machine

variable {α β ε : Type*} {n : Nat}

/-- Write what is made of each item, from this index on; `none` when an item panics or the index
    is out of bounds. -/
def fill (f : α → Option (Except ε β)) : Nat → List α → Vector β n →
    Option (Except ε (Vector β n))
  | _, [], buf => some (.ok buf)
  | i, x :: xs, buf =>
      match f x with
      | none => none
      | some (.error error) => some (.error error)
      | some (.ok y) => if h : i < n then fill f (i + 1) xs (buf.set i y) else none

variable {f : α → Option (Except ε β)}

/-- The loop either writes all items, or ends with the error of one of them. -/
theorem fill_cases {xs : List α} (total : ∀ x ∈ xs, ∃ result, f x = some result) :
    ∀ {i} (buf : Vector β n), i + xs.length = n →
      (∃ ys out, List.Forall₂ (fun x y => f x = some (.ok y)) xs ys ∧
        fill f i xs buf = some (.ok out) ∧ out.toList = buf.toList.take i ++ ys) ∨
      ∃ x ∈ xs, ∃ error, f x = some (.error error) ∧ fill f i xs buf = some (.error error) := by
  induction xs with
  | nil =>
      intro i buf fits
      refine .inl ⟨[], buf, .nil, rfl, ?_⟩
      rw [List.append_nil, List.take_of_length_le]
      rw [Vector.length_toList, ← fits]
      exact Nat.le_refl i
  | cons x xs ih =>
      intro i buf fits
      obtain ⟨first, others⟩ := List.forall_mem_cons.mp total
      obtain ⟨error | y, made⟩ := first
      · exact .inr ⟨x, List.mem_cons_self, error, made, by simp only [fill, made]⟩
      · rw [List.length_cons] at fits
        have inside : i < n := by omega
        have fits' : i + 1 + xs.length = n := by omega
        have goes : fill f i (x :: xs) buf = fill f (i + 1) xs (buf.set i y) := by
          simp only [fill, made, dif_pos inside]
        rw [goes]
        rcases ih others (buf.set i y) fits' with
          ⟨ys, out, all, done, written⟩ | ⟨x', member, error, failed, ended⟩
        · refine .inl ⟨y :: ys, out, .cons made all, done, ?_⟩
          rw [written, Vector.toList_set]
          simp [List.take_add_one, List.take_set_of_le, inside]
        · exact .inr ⟨x', List.mem_cons_of_mem _ member, error, failed, ended⟩

end Lindy.Machine
