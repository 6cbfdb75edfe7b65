import Lindy.Machine.Custody
import Mathlib.Data.List.Perm.Subperm

/-! # Numbered items in places

Items get numbers in the order they arrive, and each place holds the numbers of its items in
that order. A number lies in one place at most. A new item joins a place at the end, a place
may be emptied, and all of it may move on to an empty place.
-/

namespace Lindy.Machine

structure Ledger {ι : Type*} (size : Nat) (held : ι → List Nat) : Prop where
  exclusive : Exclusive held
  increasing : ∀ i, (held i).Pairwise (· < ·)
  issued : ∀ i, ∀ k ∈ held i, k < size

namespace Ledger

variable {ι : Type*} {size : Nat} {held : ι → List Nat}

theorem empty : Ledger 0 (fun _ : ι => []) where
  exclusive := .empty
  increasing := fun _ => .nil
  issued := by simp

variable [DecidableEq ι]

/-- The next item joins at the end of a place. -/
theorem join (h : Ledger size held) (i : ι) :
    Ledger (size + 1) (Function.update held i (held i ++ [size])) where
  exclusive := by
    refine h.exclusive.append i (.refl _) (by simp) fun k fresh j member => ?_
    obtain rfl := List.mem_singleton.mp fresh
    exact Nat.lt_irrefl _ (h.issued j _ member)
  increasing := by
    refine (Function.forall_update_iff held fun _ ks => ks.Pairwise (· < ·)).mpr
      ⟨?_, fun j _ => h.increasing j⟩
    rw [List.pairwise_append]
    refine ⟨h.increasing i, .cons (by simp) .nil, fun k member next last => ?_⟩
    rw [List.mem_singleton.mp last]
    exact h.issued i k member
  issued := by
    intro j k member
    simp only [mem_update, List.mem_append, List.mem_singleton] at member
    rcases member with ⟨rfl, before | rfl⟩ | ⟨-, before⟩
    · exact Nat.lt_succ_of_lt (h.issued j k before)
    · exact Nat.lt_succ_self _
    · exact Nat.lt_succ_of_lt (h.issued j k before)

/-- A place is emptied. -/
theorem drop (h : Ledger size held) (i : ι) : Ledger size (Function.update held i []) where
  exclusive := h.exclusive.clear i
  increasing := fun j => (h.increasing j).sublist (sublist_update (List.nil_sublist _) j)
  issued := fun j k member => h.issued j k ((sublist_update (List.nil_sublist _) j).subset member)

/-- Everything in one place moves on to an empty one. -/
theorem move (h : Ledger size held) {i j : ι} (apart : j ≠ i) (free : held j = []) :
    Ledger size (Function.update (Function.update held i []) j (held i)) := by
  have rest := h.drop i
  constructor
  · refine rest.exclusive.append j ?_ (h.exclusive.nodup i) fun k member other elsewhere => ?_
    · rw [Function.update_of_ne apart, free, List.nil_append]
    · rw [mem_update] at elsewhere
      rcases elsewhere with ⟨-, none⟩ | ⟨same, elsewhere⟩
      · cases none
      · exact same (h.exclusive.unique elsewhere member)
  · exact (Function.forall_update_iff _ fun _ (ks : List Nat) => ks.Pairwise (· < ·)).mpr
      ⟨h.increasing i, fun other _ => rest.increasing other⟩
  · intro other k member
    rw [mem_update] at member
    rcases member with ⟨-, member⟩ | ⟨-, member⟩
    · exact h.issued i k member
    · exact rest.issued other k member

omit [DecidableEq ι] in
/-- What some places hold together are items that were issued, each at most once. -/
theorem gathered (h : Ledger size held) {places : List ι} (distinct : places.Nodup) :
    (places.flatMap held).Subperm (List.range size) := by
  refine List.Nodup.subperm (List.nodup_flatMap.mpr ⟨fun i _ => h.exclusive.nodup i, ?_⟩) ?_
  · exact distinct.imp fun apart k left right => apart (h.exclusive.unique left right)
  · intro k member
    obtain ⟨i, -, there⟩ := List.mem_flatMap.mp member
    exact List.mem_range.mpr (h.issued i k there)

end Ledger

/-- One of the places gets one more item. -/
theorem flatMap_join {ι τ : Type*} {held held' : ι → List τ} {places : List ι} {i : ι} {item : τ}
    (distinct : places.Nodup) (member : i ∈ places) (joined : held' i = held i ++ [item])
    (others : ∀ j ∈ places, j ≠ i → held' j = held j) :
    (places.flatMap held').Perm (places.flatMap held ++ [item]) := by
  obtain ⟨before, after, rfl⟩ := List.append_of_mem member
  have apart := List.nodup_middle.mp distinct |>.notMem
  have same : ∀ places' : List ι, (∀ j ∈ places', j ∈ before ++ after) →
      places'.flatMap held' = places'.flatMap held := by
    intro places' sub
    refine List.flatMap_congr fun j inside => others j ?_ ?_
    · have found := sub j inside
      simp only [List.mem_append, List.mem_cons] at found ⊢
      tauto
    · rintro rfl
      exact apart (sub j inside)
  simp only [List.flatMap_append, List.flatMap_cons, joined,
    same before fun _ => List.mem_append_left _, same after fun _ => List.mem_append_right _,
    List.append_assoc]
  exact (List.perm_append_comm.append_left _).append_left _

/-- The items of a log, found by their numbers. -/
theorem filterMap_range {α β : Type*} (log : List α) (f : α → β) :
    (List.range log.length).filterMap (fun k => log[k]?.map f) = log.map f := by
  induction log with
  | nil => rfl
  | cons item log ih =>
      simp only [List.length_cons, List.range_succ_eq_map, List.filterMap_cons,
        List.getElem?_cons_zero, Option.map_some, List.filterMap_map, Function.comp_def,
        List.getElem?_cons_succ, ih, List.map_cons]

end Lindy.Machine
