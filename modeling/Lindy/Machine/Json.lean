import Mathlib.Data.Countable.Basic
import Mathlib.Data.List.Nodup

/-! # What derived codecs make of JSON

A struct is an object with its fields, read back from an object that has each of them once, or
from an array of their values. A variant that is told by a tag has the tag among the members.
-/

namespace Lindy.Machine

inductive Json where
  | null
  | bool (value : Bool)
  | number (value : Int)
  | float (text : String)
  | string (text : String)
  | array (items : List Json)
  | object (members : List (String × Json))

/-- How a type is written and read. -/
structure Codec (α : Type) where
  serialize : α → Json
  deserialize : Json → Option α

namespace Codec

variable {α : Type}

/-- What was written is read. -/
def Lawful (codec : Codec α) : Prop :=
  ∀ a, codec.deserialize (codec.serialize a) = some a

/-- An unsigned integer below a bound. -/
def unsigned (size : Nat) (toNat : α → Nat) (ofNat : Nat → α) : Codec α where
  serialize := fun a => .number (toNat a)
  deserialize := fun json => match json with
    | .number (.ofNat n) => if n < size then some (ofNat n) else none
    | _ => none

theorem unsigned_lawful {size : Nat} {toNat : α → Nat} {ofNat : Nat → α}
    (bounded : ∀ a, toNat a < size) (back : ∀ a, ofNat (toNat a) = a) :
    (unsigned size toNat ofNat).Lawful := by
  intro a
  refine (if_pos (bounded a)).trans ?_
  rw [back]

def u16 : Codec UInt16 := unsigned UInt16.size UInt16.toNat UInt16.ofNat

def u32 : Codec UInt32 := unsigned UInt32.size UInt32.toNat UInt32.ofNat

def u64 : Codec UInt64 := unsigned UInt64.size UInt64.toNat UInt64.ofNat

theorem u16_lawful : u16.Lawful :=
  unsigned_lawful UInt16.toNat_lt_size fun _ => UInt16.ofNat_toNat

theorem u32_lawful : u32.Lawful :=
  unsigned_lawful UInt32.toNat_lt_size fun _ => UInt32.ofNat_toNat

theorem u64_lawful : u64.Lawful :=
  unsigned_lawful UInt64.toNat_lt_size fun _ => UInt64.ofNat_toNat

/-- Values that can be counted have names of their own, one of them a given name. -/
theorem exists_naming {β : Type*} [Countable α] (a : α) (first : β) {names : Nat → β}
    (distinct : Function.Injective names) (others : ∀ n, names n ≠ first) :
    ∃ name : α → β, Function.Injective name ∧ name a = first ∧
      ∀ x, name x = first ∨ ∃ n, name x = names n := by
  classical
  obtain ⟨number, numbered⟩ := exists_injective_nat α
  refine ⟨fun x => if x = a then first else names (number x), ?_, if_pos rfl, ?_⟩
  · intro x y same
    by_cases isFirst : x = a <;> by_cases isFirst' : y = a <;>
      simp only [isFirst, isFirst', if_true, if_false] at same
    · exact isFirst.trans isFirst'.symm
    · exact absurd same.symm (others _)
    · exact absurd same (others _)
    · exact numbered (distinct same)
  · intro x
    by_cases isFirst : x = a
    · exact .inl (if_pos isFirst)
    · exact .inr ⟨number x, if_neg isFirst⟩

/-- Where values can be counted there is a codec that writes one of them as a given text. -/
theorem exists_lawful [Countable α] (a : α) (text : String) :
    ∃ codec : Codec α, codec.Lawful ∧ codec.serialize a = .string text := by
  have distinct : Function.Injective fun n : Nat => Json.number n := by
    intro m n same
    exact Int.ofNat_inj.mp (Json.number.inj same)
  obtain ⟨serialize, injective, first, -⟩ := exists_naming a (.string text) distinct (by simp)
  exact ⟨⟨serialize, Function.partialInv serialize⟩, Function.partialInv_left injective, first⟩

end Codec

/-- The member of this name, when there is just one. -/
def member (members : List (String × Json)) (name : String) : Option Json :=
  match members.filter fun entry => entry.1 = name with
  | [(_, value)] => some value
  | _ => none

/-- The values of the fields of a struct. Members of other names are ignored. -/
def fieldValues (names : List String) : Json → Option (List Json)
  | .object members => names.mapM (member members)
  | .array items => if items.length = names.length then some items else none
  | _ => none

/-- The tag and the content without it. -/
def tagged (tag : String) : Json → Option (String × Json)
  | .object members =>
      match member members tag with
      | some (.string kind) => some (kind, .object (members.filter fun entry => entry.1 ≠ tag))
      | _ => none
  | .array (.string kind :: items) => some (kind, .array items)
  | _ => none

theorem member_of_mem {members : List (String × Json)} {entry : String × Json}
    (distinct : (members.map Prod.fst).Nodup) (inside : entry ∈ members) :
    member members entry.1 = some entry.2 := by
  have single : members.filter (fun other => other.1 = entry.1) = [entry] := by
    induction members with
    | nil => cases inside
    | cons first others ih =>
        obtain ⟨apart, distinct⟩ := List.nodup_cons.mp distinct
        rcases List.mem_cons.mp inside with rfl | inside
        · have none : others.filter (fun other => other.1 = entry.1) = [] := by
            refine List.filter_eq_nil_iff.mpr fun other among same => apart ?_
            exact of_decide_eq_true same ▸ List.mem_map_of_mem among
          simp [none]
        · have other : first.1 ≠ entry.1 := fun same =>
            apart (same ▸ List.mem_map_of_mem inside)
          simpa [other] using ih distinct inside
  rw [member, single]

theorem mapM_zip {α β : Type} {f : α → Option β} {xs : List α} {ys : List β}
    (full : xs.length = ys.length) (each : ∀ pair ∈ xs.zip ys, f pair.1 = some pair.2) :
    xs.mapM f = some ys := by
  induction xs generalizing ys with
  | nil =>
      obtain rfl : ys = [] := List.length_eq_zero_iff.mp full.symm
      rfl
  | cons x xs ih =>
      obtain ⟨y, ys, rfl⟩ := List.exists_cons_of_length_eq_add_one full.symm
      obtain ⟨first, others⟩ := List.forall_mem_cons.mp each
      rw [List.mapM_cons, first, ih (Nat.succ.inj full) others]
      rfl

/-- Fields that were written are read, in their order. -/
theorem fieldValues_zip {names : List String} {values : List Json} (distinct : names.Nodup)
    (full : names.length = values.length) :
    fieldValues names (.object (names.zip values)) = some values := by
  have keys : (names.zip values).map Prod.fst = names := List.map_fst_zip (Nat.le_of_eq full)
  exact mapM_zip full fun entry inside => member_of_mem (by rwa [keys]) inside

theorem tagged_object {tag : String} (kind : String) {members : List (String × Json)}
    (fresh : ∀ entry ∈ members, entry.1 ≠ tag) :
    tagged tag (.object ((tag, .string kind) :: members)) = some (kind, .object members) := by
  have others : members.filter (fun entry => entry.1 = tag) = [] :=
    List.filter_eq_nil_iff.mpr fun entry inside => by simpa using fresh entry inside
  simpa [tagged, member, others] using fun name value => fresh (name, value)

/-- The fields of a struct, as they are written and read. -/
structure Struct (α : Type) where
  names : List String
  values : α → List Json
  ofValues : List Json → Option α

namespace Struct

variable {α : Type} {struct : Struct α}

def members (struct : Struct α) (a : α) : List (String × Json) :=
  struct.names.zip (struct.values a)

def deserialize (struct : Struct α) (content : Json) : Option α :=
  (fieldValues struct.names content).bind struct.ofValues

structure Lawful (struct : Struct α) : Prop where
  distinct : struct.names.Nodup
  full : ∀ a, struct.names.length = (struct.values a).length
  back : ∀ a, struct.ofValues (struct.values a) = some a

theorem Lawful.deserialize_members (lawful : struct.Lawful) (a : α) :
    struct.deserialize (.object (struct.members a)) = some a := by
  rw [deserialize, members, fieldValues_zip lawful.distinct (lawful.full a), Option.bind_some,
    lawful.back]

/-- A struct behind a tag is told by it and read without it. -/
theorem tagged_members {tag : String} (fresh : tag ∉ struct.names) (kind : String) (a : α) :
    tagged tag (.object ((tag, .string kind) :: struct.members a)) =
      some (kind, .object (struct.members a)) := by
  apply tagged_object
  rintro ⟨name, value⟩ inside rfl
  exact fresh (List.of_mem_zip inside).1

end Struct

end Lindy.Machine
