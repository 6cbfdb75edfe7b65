import Mathlib.Logic.Function.Basic

/-! # Key-value tables

A table is read at a key and changed at one key at a time; what is left of a hash map once
the order of its entries is forgotten.
-/

namespace Lindy.Machine

/-- What is stored under each key. -/
def Table (κ ν : Type*) := κ → Option ν

namespace Table

variable {κ ν : Type*}

def empty : Table κ ν := fun _ => none

/-- The value stored under `key`. -/
def get (t : Table κ ν) (key : κ) : Option ν := t key

@[ext] theorem ext {t u : Table κ ν} (same : ∀ key, t.get key = u.get key) : t = u :=
  funext same

@[simp] theorem get_empty (key : κ) : (empty : Table κ ν).get key = none := rfl

variable [DecidableEq κ]

/-- Store `value` under `key`, over whatever was there. -/
def insert (t : Table κ ν) (key : κ) (value : ν) : Table κ ν :=
  fun other => if other = key then some value else t other

/-- Forget what is stored under `key`. -/
def remove (t : Table κ ν) (key : κ) : Table κ ν :=
  fun other => if other = key then none else t other

theorem get_insert (t : Table κ ν) (key other : κ) (value : ν) :
    (t.insert key value).get other = if other = key then some value else t.get other := rfl

theorem get_remove (t : Table κ ν) (key other : κ) :
    (t.remove key).get other = if other = key then none else t.get other := rfl

@[simp] theorem get_insert_self (t : Table κ ν) (key : κ) (value : ν) :
    (t.insert key value).get key = some value := by simp [get_insert]

@[simp] theorem get_remove_self (t : Table κ ν) (key : κ) : (t.remove key).get key = none := by
  simp [get_remove]

theorem get_insert_of_ne (t : Table κ ν) {key other : κ} (value : ν) (ne : other ≠ key) :
    (t.insert key value).get other = t.get other := by simp [get_insert, ne]

theorem get_remove_of_ne (t : Table κ ν) {key other : κ} (ne : other ≠ key) :
    (t.remove key).get other = t.get other := by simp [get_remove, ne]

@[simp] theorem insert_insert (t : Table κ ν) (key : κ) (value value' : ν) :
    (t.insert key value).insert key value' = t.insert key value' := by
  ext other : 1
  simp only [get_insert]
  split <;> rfl

/-- Values under different keys are stored in either order. -/
theorem insert_comm (t : Table κ ν) {key key' : κ} (value value' : ν) (apart : key ≠ key') :
    (t.insert key value).insert key' value' = (t.insert key' value').insert key value := by
  ext other : 1
  simp only [get_insert]
  split
  · rename_i same
    rw [if_neg (same ▸ apart.symm)]
  · rfl

/-- So are one that is stored and another one that is forgotten. -/
theorem remove_insert_of_ne (t : Table κ ν) {key key' : κ} (value : ν) (apart : key ≠ key') :
    (t.insert key value).remove key' = (t.remove key').insert key value := by
  ext other : 1
  simp only [get_insert, get_remove]
  split
  · rename_i same
    rw [if_neg (same ▸ apart.symm)]
  · rfl

/-- Storing what is stored already changes nothing. -/
theorem insert_same {t : Table κ ν} {key : κ} {value : ν} (stored : t.get key = some value) :
    t.insert key value = t := by
  ext other : 1
  rw [get_insert]
  split
  · subst_vars; exact stored.symm
  · rfl

end Table

end Lindy.Machine
