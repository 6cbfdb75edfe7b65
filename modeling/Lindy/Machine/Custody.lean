import Mathlib.Data.List.Nodup
import Mathlib.Logic.Function.Basic

/-! # Exclusive custody of tokens

Tokens lie in lists, one list to a place. Custody is exclusive when no token lies in two
places, or twice in one. Handing tokens in and taking tokens out keep it so.
-/

namespace Lindy.Machine

section Update

variable {ι τ : Type*} [DecidableEq ι] {held : ι → List τ} {i j : ι} {all : List τ} {t : τ}

/-- What lies in the places once one of them was set. -/
theorem mem_update :
    t ∈ Function.update held j all i ↔ (i = j ∧ t ∈ all) ∨ (i ≠ j ∧ t ∈ held i) := by
  by_cases same : i = j
  · subst same
    simp
  · simp [same]

theorem sublist_update (sub : all.Sublist (held j)) (i : ι) :
    (Function.update held j all i).Sublist (held i) := by
  by_cases same : i = j
  · subst same
    rwa [Function.update_self]
  · rw [Function.update_of_ne same]

end Update

structure Exclusive {ι τ : Type*} (held : ι → List τ) : Prop where
  nodup : ∀ i, (held i).Nodup
  unique : ∀ {i j t}, t ∈ held i → t ∈ held j → i = j

namespace Exclusive

variable {ι τ : Type*} {held less : ι → List τ}

theorem empty : Exclusive (fun _ : ι => ([] : List τ)) where
  nodup := fun _ => List.nodup_nil
  unique := by simp

/-- Tokens may be taken out anywhere. -/
theorem sublist (h : Exclusive held) (sub : ∀ i, (less i).Sublist (held i)) :
    Exclusive less where
  nodup := fun i => (h.nodup i).sublist (sub i)
  unique := fun {i j _} left right => h.unique ((sub i).subset left) ((sub j).subset right)

/-- Tokens that lie nowhere may be handed in at one place. -/
theorem append [DecidableEq ι] (h : Exclusive held) (j : ι) {new all : List τ}
    (order : all.Perm (held j ++ new)) (distinct : new.Nodup)
    (outside : ∀ t ∈ new, ∀ i, t ∉ held i) : Exclusive (Function.update held j all) where
  nodup := by
    intro i
    by_cases same : i = j
    · subst same
      rw [Function.update_self, order.nodup_iff]
      exact List.nodup_append'.mpr ⟨h.nodup i, distinct,
        fun t old fresh => outside t fresh i old⟩
    · simpa only [Function.update_of_ne same] using h.nodup i
  unique := by
    intro i i' t left right
    have old (member : t ∈ all) {k : ι} (elsewhere : t ∈ held k) : t ∈ held j :=
      (List.mem_append.mp (order.subset member)).resolve_right fun fresh =>
        outside t fresh k elsewhere
    rw [mem_update] at left right
    rcases left with ⟨rfl, left⟩ | ⟨-, left⟩ <;> rcases right with ⟨rfl, right⟩ | ⟨-, right⟩
    · rfl
    · exact h.unique (old left right) right
    · exact h.unique left (old right left)
    · exact h.unique left right

/-- Emptying one place. -/
theorem clear [DecidableEq ι] (h : Exclusive held) (j : ι) :
    Exclusive (Function.update held j []) :=
  h.sublist (sublist_update (List.nil_sublist _))

end Exclusive

end Lindy.Machine
