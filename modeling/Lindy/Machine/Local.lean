import Lindy.Machine.Run
import Lindy.Machine.Table
import Mathlib.Algebra.Order.Group.Multiset
import Mathlib.Data.Multiset.Filter
import Mathlib.Tactic.Abel

/-! # Steps at one key

A table of records, and a bag of tasks that wait to be ended. A local step reads the record
under its key, may store another one there, and ends and starts tasks of that key. Steps at
different keys do not notice each other: they can be swapped, and what a run leaves under a
key is what the steps at that key leave there.
-/

namespace Lindy.Machine

structure Cells (κ ν τ : Type*) where
  records : Table κ ν
  tasks : Multiset τ

/-- What a step makes of a record. -/
structure Turn (ν τ ρ : Type*) where
  reply : ρ
  stores : Option ν
  spawns : List τ

structure Local (κ ν τ ρ : Type*) where
  key : κ
  ends : Multiset τ
  turn : Option ν → Turn ν τ ρ

namespace Local

variable {κ ν τ ρ : Type*} [DecidableEq κ] {x y : Local κ ν τ ρ} {s t u : Cells κ ν τ} {r q : ρ}

/-- What `stores` makes of the record under a key. -/
def write (records : Table κ ν) (key : κ) : Option ν → Table κ ν
  | some value => records.insert key value
  | none => records

theorem get_write_self (records : Table κ ν) (key : κ) (stores : Option ν) :
    (write records key stores).get key = stores.or (records.get key) := by
  cases stores with
  | none => simp [write]
  | some value => simp [write]

theorem get_write_of_ne (records : Table κ ν) {key other : κ} (stores : Option ν)
    (apart : other ≠ key) : (write records key stores).get other = records.get other := by
  cases stores with
  | none => rfl
  | some value => exact Table.get_insert_of_ne _ _ apart

theorem write_comm (records : Table κ ν) {key other : κ} (stores stores' : Option ν)
    (apart : key ≠ other) :
    write (write records key stores) other stores' =
      write (write records other stores') key stores := by
  cases stores with
  | none => rfl
  | some value =>
      cases stores' with
      | none => rfl
      | some value' => exact Table.insert_comm _ _ _ apart

/-- The cells after the step, when `rest` are the tasks it does not end. -/
def after (x : Local κ ν τ ρ) (s : Cells κ ν τ) (rest : Multiset τ) : Cells κ ν τ where
  records := write s.records x.key (x.turn (s.records.get x.key)).stores
  tasks := rest + (x.turn (s.records.get x.key)).spawns

/-- The step can be taken, with this reply. -/
def Steps (x : Local κ ν τ ρ) (s : Cells κ ν τ) (r : ρ) (t : Cells κ ν τ) : Prop :=
  r = (x.turn (s.records.get x.key)).reply ∧
    ∃ rest, s.tasks = x.ends + rest ∧ t = x.after s rest

/-- A step has one outcome. -/
theorem Steps.unique (first : x.Steps s r t) (second : x.Steps s q u) : r = q ∧ t = u := by
  obtain ⟨rfl, rest, split, rfl⟩ := first
  obtain ⟨rfl, rest', split', rfl⟩ := second
  obtain rfl := add_left_cancel (split.symm.trans split')
  exact ⟨rfl, rfl⟩

/-- From the same record a step changes the tasks in the same way. -/
theorem Steps.tasks_add {s' t' : Cells κ ν τ} (first : x.Steps s r t) (second : x.Steps s' q t')
    (same : s.records.get x.key = s'.records.get x.key) :
    t.tasks + s'.tasks = s.tasks + t'.tasks := by
  obtain ⟨-, rest, split, rfl⟩ := first
  obtain ⟨-, rest', split', rfl⟩ := second
  simp only [after, split, split', same]
  abel

/-- Two steps at different keys whose tasks are all there can be taken in either order, to
    the same end. -/
theorem commute (apart : x.key ≠ y.key) (there : x.ends + y.ends ≤ s.tasks) :
    ∃ r q s₁ s₂ u, x.Steps s r s₁ ∧ y.Steps s₁ q u ∧ y.Steps s q s₂ ∧ x.Steps s₂ r u := by
  obtain ⟨rest, split⟩ := Multiset.le_iff_exists_add.mp there
  have unseen := get_write_of_ne s.records (x.turn (s.records.get x.key)).stores apart.symm
  have unseen' := get_write_of_ne s.records (y.turn (s.records.get y.key)).stores apart
  let left := rest + (x.turn (s.records.get x.key)).spawns
  let right := rest + (y.turn (s.records.get y.key)).spawns
  have first : x.Steps s _ (x.after s (y.ends + rest)) := ⟨rfl, _, by rw [split, add_assoc], rfl⟩
  have first' : y.Steps s _ (y.after s (x.ends + rest)) :=
    ⟨rfl, _, by rw [split, add_comm x.ends, add_assoc], rfl⟩
  have second : y.Steps (x.after s (y.ends + rest)) (y.turn (s.records.get y.key)).reply
      (y.after (x.after s (y.ends + rest)) left) :=
    ⟨by simp only [after, unseen], left, by simp only [after, add_assoc, left], rfl⟩
  have second' : x.Steps (y.after s (x.ends + rest)) (x.turn (s.records.get x.key)).reply
      (x.after (y.after s (x.ends + rest)) right) :=
    ⟨by simp only [after, unseen'], right, by simp only [after, add_assoc, right], rfl⟩
  have same : y.after (x.after s (y.ends + rest)) left =
      x.after (y.after s (x.ends + rest)) right := by
    simp only [after, unseen, unseen', write_comm _ _ _ apart, add_right_comm, left, right]
  exact ⟨_, _, _, _, _, first, second, first', same ▸ second'⟩

section Keyed

variable (keyOf : τ → κ)

/-- A step ends and starts tasks of its own key only. -/
structure Keyed (x : Local κ ν τ ρ) : Prop where
  ends : ∀ task ∈ x.ends, keyOf task = x.key
  spawns : ∀ record, ∀ task ∈ (x.turn record).spawns, keyOf task = x.key

/-- What there is under a key. -/
def under (key : κ) (s : Cells κ ν τ) : Option ν × Multiset τ :=
  (s.records.get key, s.tasks.filter fun task => keyOf task = key)

variable {keyOf} {key : κ}

/-- Two steps at different keys do not need the same task. -/
theorem Keyed.both (kx : x.Keyed keyOf) (ky : y.Keyed keyOf) (apart : x.key ≠ y.key)
    (hx : x.ends ≤ s.tasks) (hy : y.ends ≤ s.tasks) : x.ends + y.ends ≤ s.tasks := by
  rw [← Multiset.filter_add_not (fun task => keyOf task = x.key) s.tasks]
  apply add_le_add
  · exact Multiset.le_filter.mpr ⟨hx, kx.ends⟩
  · refine Multiset.le_filter.mpr ⟨hy, fun task member same => apart ?_⟩
    exact same.symm.trans (ky.ends task member)

/-- Nothing changes under another key. -/
theorem Steps.elsewhere (took : x.Steps s r t) (kx : x.Keyed keyOf) (apart : x.key ≠ key) :
    under keyOf key t = under keyOf key s := by
  obtain ⟨-, rest, split, rfl⟩ := took
  have none_of : ∀ tasks : Multiset τ, (∀ task ∈ tasks, keyOf task = x.key) →
      tasks.filter (fun task => keyOf task = key) = 0 := fun tasks keyed =>
    Multiset.filter_eq_nil.mpr fun task member same =>
      apart ((keyed task member).symm.trans same)
  have spawned := none_of (x.turn (s.records.get x.key)).spawns (kx.spawns _)
  simp only [under, after, get_write_of_ne _ _ apart.symm, split, Multiset.filter_add,
    none_of _ kx.ends, spawned, zero_add, add_zero]

/-- A step sees nothing but what there is under its key. -/
theorem Steps.here (took : x.Steps s r t) (kx : x.Keyed keyOf)
    (same : under keyOf x.key u = under keyOf x.key s) :
    ∃ v, x.Steps u r v ∧ under keyOf x.key v = under keyOf x.key t := by
  obtain ⟨rfl, rest, split, rfl⟩ := took
  obtain ⟨record, tasks⟩ := Prod.mk.inj same
  have there : x.ends ≤ u.tasks := by
    refine le_trans ?_ (Multiset.filter_le (fun task => keyOf task = x.key) u.tasks)
    rw [tasks]
    exact Multiset.le_filter.mpr ⟨split ▸ Multiset.le_add_right _ _, kx.ends⟩
  obtain ⟨rest', split'⟩ := Multiset.le_iff_exists_add.mp there
  refine ⟨x.after u rest', ⟨by rw [record], rest', split', rfl⟩, ?_⟩
  rw [split, split', Multiset.filter_add, Multiset.filter_add] at tasks
  have rests := add_left_cancel tasks
  simp only [under, after, get_write_self, record, Multiset.filter_add, rests]

end Keyed

end Local

end Lindy.Machine
