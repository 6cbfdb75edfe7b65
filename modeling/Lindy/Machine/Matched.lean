import Mathlib.Data.List.Perm.Subperm

/-! # What is listed under a key

A log of pairs holds for each key a list of its own. Two logs that are kept in places can be
compared place by place, when each place of one is matched by a place of the other.
-/

namespace Lindy.Machine

section Under

variable {κ β : Type*} [DecidableEq κ] {key : κ}

/-- What a log holds under a key, in its order. -/
def under (key : κ) (pairs : List (κ × β)) : List β :=
  pairs.filterMap fun pair => if pair.1 = key then some pair.2 else none

@[simp] theorem under_nil : under key ([] : List (κ × β)) = [] := rfl

@[simp] theorem under_append (pairs more : List (κ × β)) :
    under key (pairs ++ more) = under key pairs ++ under key more :=
  List.filterMap_append ..

@[simp] theorem under_cons (pair : κ × β) (pairs : List (κ × β)) :
    under key (pair :: pairs) =
      if pair.1 = key then pair.2 :: under key pairs else under key pairs := by
  simp only [under, List.filterMap_cons]
  split <;> simp_all

theorem mem_under {pairs : List (κ × β)} {item : β} :
    item ∈ under key pairs ↔ (key, item) ∈ pairs := by
  constructor
  · intro member
    obtain ⟨⟨key', item'⟩, there, found⟩ := List.mem_filterMap.mp member
    split at found
    · rename_i same
      obtain rfl : key' = key := same
      obtain rfl := Option.some.inj found
      exact there
    · cases found
  · intro member
    exact List.mem_filterMap.mpr ⟨_, member, if_pos rfl⟩

theorem under_perm {pairs others : List (κ × β)} (same : pairs.Perm others) :
    (under key pairs).Perm (under key others) :=
  same.filterMap _

theorem under_subperm {pairs others : List (κ × β)} (less : pairs.Subperm others) :
    (under key pairs).Subperm (under key others) := by
  obtain ⟨picked, same, part⟩ := less
  exact ⟨under key picked, under_perm same, part.filterMap _⟩

/-- Other names for the keys, and for the items, make no other difference. -/
theorem under_map {κ' γ : Type*} [DecidableEq κ'] (name : κ → κ') (f : β → γ)
    (known : ∀ other, name other = name key → other = key) (pairs : List (κ × β)) :
    under (name key) (pairs.map fun pair => (name pair.1, f pair.2)) =
      (under key pairs).map f := by
  induction pairs with
  | nil => rfl
  | cons pair pairs ih =>
      by_cases here : pair.1 = key
      · simp [here, ih]
      · have apart : name pair.1 ≠ name key := fun same => here (known _ same)
        simp [here, apart, ih]

end Under

/-- Each place is empty, or holds no more than the one place that matches it. -/
theorem flatMap_subperm {ι κ β : Type*} {f : ι → List β} {g : κ → List β} {places : List ι}
    {others : List κ} (distinct : places.Nodup) (partner : ι → κ → Prop)
    (matched : ∀ i ∈ places, f i = [] ∨ ∃ k ∈ others, partner i k ∧ (f i).Subperm (g k))
    (single : ∀ i i' k, partner i k → partner i' k → i = i') :
    (places.flatMap f).Subperm (others.flatMap g) := by
  induction places generalizing others with
  | nil => exact List.nil_subperm
  | cons i places ih =>
      obtain ⟨fresh, distinct⟩ := List.nodup_cons.mp distinct
      have rest := fun j inside => matched j (List.mem_cons_of_mem _ inside)
      rcases matched i List.mem_cons_self with none | ⟨k, member, mine, less⟩
      · rw [List.flatMap_cons, none, List.nil_append]
        exact ih distinct rest
      · obtain ⟨before, after, rfl⟩ := List.append_of_mem member
        have others : (places.flatMap f).Subperm ((before ++ after).flatMap g) := by
          refine ih distinct fun j inside => (rest j inside).imp_right ?_
          rintro ⟨k', there, theirs, less⟩
          refine ⟨k', ?_, theirs, less⟩
          have apart : k' ≠ k := by
            rintro rfl
            exact fresh (single _ _ _ mine theirs ▸ inside)
          simpa [apart] using there
        have moved : (g k ++ (before ++ after).flatMap g).Perm
            ((before ++ k :: after).flatMap g) := by
          simp only [List.flatMap_append, List.flatMap_cons, ← List.append_assoc]
          exact List.perm_append_comm.append_right _
        exact (less.append others).trans moved.subperm

end Lindy.Machine
