import Mathlib.Data.List.Basic

/-! # Cutting what arrives in chunks

A separator cuts a sequence into pieces. However the sequence is chunked, a reader that keeps
what is left of the last piece finds the pieces of the whole. What is read piece by piece up
to the first one that cannot be decoded is the longest prefix that can.
-/

namespace Lindy.Machine

section Cut

variable {α : Type*} [DecidableEq α] {sep : α}

/-- The pieces that a separator ended, and what is left after the last one. -/
def cut (sep : α) : List α → List (List α) × List α
  | [] => ([], [])
  | x :: xs =>
      if x = sep then ([] :: (cut sep xs).1, (cut sep xs).2)
      else
        match cut sep xs with
        | ([], rest) => ([], x :: rest)
        | (piece :: pieces, rest) => ((x :: piece) :: pieces, rest)

/-- Cutting goes on where it was left. -/
theorem cut_append (xs ys : List α) : cut sep (xs ++ ys) =
    ((cut sep xs).1 ++ (cut sep ((cut sep xs).2 ++ ys)).1,
      (cut sep ((cut sep xs).2 ++ ys)).2) := by
  induction xs with
  | nil => rfl
  | cons x xs ih =>
      by_cases same : x = sep
      · simp only [List.cons_append, cut, same, if_true, ih]
      · rcases before : cut sep xs with ⟨_ | ⟨piece, pieces⟩, rest⟩
        · rw [before, List.nil_append] at ih
          simp only [List.cons_append, cut, same, if_false, before, ih, List.nil_append]
        · rw [before] at ih
          simp only [List.cons_append, cut, same, if_false, before, ih]

/-- What is left holds no separator. -/
theorem cut_rest (xs : List α) : cut sep (cut sep xs).2 = ([], (cut sep xs).2) := by
  induction xs with
  | nil => rfl
  | cons x xs ih =>
      by_cases same : x = sep
      · simpa only [cut, same, if_true] using ih
      · rcases before : cut sep xs with ⟨_ | ⟨piece, pieces⟩, rest⟩
        · rw [before] at ih
          simp only [cut, same, if_false, before, ih]
        · rw [before] at ih
          simpa only [cut, same, if_false, before] using ih

/-- Cut chunk by chunk, keeping what is left. -/
def cutChunks (sep : α) (buffer : List α) : List (List α) → List (List α) × List α
  | [] => ([], buffer)
  | chunk :: chunks =>
      let now := cut sep (buffer ++ chunk)
      let later := cutChunks sep now.2 chunks
      (now.1 ++ later.1, later.2)

/-- The chunking makes no difference. -/
theorem cutChunks_eq (chunks : List (List α)) : ∀ buffer, cut sep buffer = ([], buffer) →
    cutChunks sep buffer chunks = cut sep (buffer ++ chunks.flatten) := by
  induction chunks with
  | nil =>
      intro buffer whole
      rw [cutChunks, List.flatten_nil, List.append_nil, whole]
  | cons chunk chunks ih =>
      intro buffer _
      rw [cutChunks, ih _ (cut_rest _), List.flatten_cons, ← List.append_assoc,
        cut_append (buffer ++ chunk)]

theorem cut_piece {piece : List α} (clean : sep ∉ piece) (xs : List α) :
    cut sep (piece ++ sep :: xs) = (piece :: (cut sep xs).1, (cut sep xs).2) := by
  induction piece with
  | nil => simp only [List.nil_append, cut, if_true]
  | cons x piece ih =>
      obtain ⟨apart, clean⟩ := not_or.mp (List.mem_cons.not.mp clean)
      simp only [List.cons_append, cut, Ne.symm apart, if_false, ih clean]

theorem cut_clean {xs : List α} (clean : sep ∉ xs) : cut sep xs = ([], xs) := by
  induction xs with
  | nil => rfl
  | cons x xs ih =>
      obtain ⟨apart, clean⟩ := not_or.mp (List.mem_cons.not.mp clean)
      simp only [cut, Ne.symm apart, if_false, ih clean]

/-- Pieces that were ended by separators are found again. -/
theorem cut_terminated {pieces : List (List α)} (clean : ∀ piece ∈ pieces, sep ∉ piece) :
    cut sep (pieces.flatMap (· ++ [sep])) = (pieces, []) := by
  induction pieces with
  | nil => rfl
  | cons piece pieces ih =>
      obtain ⟨first, others⟩ := List.forall_mem_cons.mp clean
      rw [List.flatMap_cons, List.append_assoc, List.singleton_append, cut_piece first, ih others]

end Cut

section Decoded

variable {α β γ : Type*}

/-- The longest prefix that can be decoded, decoded. -/
def decoded (f : α → Option β) : List α → List β
  | [] => []
  | x :: xs =>
      match f x with
      | some y => y :: decoded f xs
      | none => []

/-- It is a prefix, and either everything or followed by what cannot be decoded. -/
theorem decoded_spec (f : α → Option β) (xs : List α) :
    ∃ rest, xs.map f = (decoded f xs).map some ++ rest ∧ ∀ y, rest.head? ≠ some (some y) := by
  induction xs with
  | nil => exact ⟨[], rfl, by simp⟩
  | cons x xs ih =>
      obtain ⟨rest, whole, stops⟩ := ih
      cases made : f x with
      | none => exact ⟨none :: xs.map f, by simp [decoded, made], by simp⟩
      | some y => exact ⟨rest, by simp [decoded, made, whole], stops⟩

/-- What follows makes no difference where it starts with what cannot be decoded. -/
theorem decoded_append {f : α → Option β} {more : List α}
    (stops : ∀ x ∈ more.head?, f x = none) (xs : List α) :
    decoded f (xs ++ more) = decoded f xs := by
  induction xs with
  | nil =>
      cases more with
      | nil => rfl
      | cons x more =>
          have failed := stops x rfl
          simp only [List.nil_append, decoded, failed]
  | cons x xs ih =>
      simp only [List.cons_append, decoded, ih]

/-- What was encoded decodes to what it was made from. -/
theorem decoded_encoded {f : α → Option β} {g : β → α} {ys : List β}
    (back : ∀ y ∈ ys, f (g y) = some y) : decoded f (ys.map g) = ys := by
  induction ys with
  | nil => rfl
  | cons y ys ih =>
      obtain ⟨first, others⟩ := List.forall_mem_cons.mp back
      simp only [List.map_cons, decoded, first, ih others]

theorem decoded_map (f : β → Option γ) (g : α → β) (xs : List α) :
    decoded f (xs.map g) = decoded (fun x => f (g x)) xs := by
  induction xs with
  | nil => rfl
  | cons x xs ih =>
      simp only [List.map_cons, decoded, ih]

/-- Decoding in two stages, each up to its first failure. -/
theorem decoded_decoded (f : α → Option β) (g : β → Option γ) (xs : List α) :
    decoded g (decoded f xs) = decoded (fun x => (f x).bind g) xs := by
  induction xs with
  | nil => rfl
  | cons x xs ih =>
      cases first : f x with
      | none => simp [decoded, first]
      | some y =>
          cases second : g y with
          | none => simp [decoded, first, second]
          | some z => simp [decoded, first, second, ih]

end Decoded

end Lindy.Machine
