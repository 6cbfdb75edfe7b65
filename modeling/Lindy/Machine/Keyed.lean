import Mathlib.Data.List.Nodup

/-! # Lists with distinct keys

Items under way, one for each key: taking one out by its position leaves none with its key,
and one with a new key may join.
-/

namespace Lindy.Machine

/-- No two items have the same key. -/
def Distinct {α κ : Type*} (key : α → κ) (items : List α) : Prop := (items.map key).Nodup

namespace Distinct

variable {α κ : Type*} {key : α → κ} {items : List α}

theorem nil : Distinct key ([] : List α) := List.nodup_nil

theorem snoc (h : Distinct key items) {new : α} (fresh : ∀ item ∈ items, key item ≠ key new) :
    Distinct key (items ++ [new]) := by
  unfold Distinct
  rw [List.map_append, List.nodup_append']
  refine ⟨h, by simp, ?_⟩
  intro k old last
  obtain ⟨item, member, rfl⟩ := List.mem_map.mp old
  exact fresh item member (by simpa using last)

theorem eraseIdx (h : Distinct key items) (i : Nat) : Distinct key (items.eraseIdx i) :=
  h.sublist ((List.eraseIdx_sublist items i).map key)

/-- The item that was taken out was the only one with its key. -/
theorem erased_ne (h : Distinct key items) {i : Nat} {taken item : α}
    (found : items[i]? = some taken) (member : item ∈ items.eraseIdx i) :
    key item ≠ key taken := by
  obtain ⟨j, other, there⟩ := List.mem_eraseIdx_iff_getElem?.mp member
  intro same
  have key_j : (items.map key)[j]? = some (key taken) := by
    rw [List.getElem?_map, there, Option.map_some, same]
  have key_i : (items.map key)[i]? = some (key taken) := by
    rw [List.getElem?_map, found, Option.map_some]
  have inside : j < (items.map key).length := (List.getElem?_eq_some_iff.mp key_j).1
  exact other ((List.getElem?_inj inside h).mp (key_j.trans key_i.symm))

end Distinct

/-- Another item than the one that was taken out is still there. -/
theorem mem_eraseIdx_of_ne {α : Type*} {items : List α} {i : Nat} {taken item : α}
    (found : items[i]? = some taken) (member : item ∈ items) (other : item ≠ taken) :
    item ∈ items.eraseIdx i := by
  obtain ⟨j, there⟩ := List.mem_iff_getElem?.mp member
  refine List.mem_eraseIdx_iff_getElem?.mpr ⟨j, ?_, there⟩
  rintro rfl
  exact other (Option.some.inj (there.symm.trans found))

/-- Where the keys some items have are distinct, a key tells its item. -/
theorem eq_of_nodup_filterMap {α κ : Type*} {key : α → Option κ} {items : List α}
    (distinct : (items.filterMap key).Nodup) {a b : α} {k : κ} (left : a ∈ items)
    (right : b ∈ items) (has : key a = some k) (has' : key b = some k) : a = b := by
  induction items with
  | nil => cases left
  | cons item items ih =>
      rw [List.filterMap_cons] at distinct
      -- an item later in the list has another key than the first one
      have later : ∀ {other}, key item = some k → other ∈ items → key other = some k → False := by
        intro other first member same
        rw [first, List.nodup_cons] at distinct
        exact distinct.1 (List.mem_filterMap.mpr ⟨other, member, same⟩)
      have rest : (items.filterMap key).Nodup := by
        split at distinct
        · exact distinct
        · exact (List.nodup_cons.mp distinct).2
      rcases List.mem_cons.mp left with rfl | inside <;>
        rcases List.mem_cons.mp right with rfl | inside'
      · rfl
      · exact (later has inside' has').elim
      · exact (later has' inside has).elim
      · exact ih rest inside inside'

end Lindy.Machine
