import StageGate.Json.Record
import StageGate.Proofs.Json.RoundTrip

/-!
# Records that are written can be read

A type is restored if each of its values is written as JSON that can be read and is read from it as
it was. The fields of a record, the items of a list and the members that are left out where there is
no value are restored if what they are made of is.
-/

namespace StageGate.Json

variable {α : Type} {write : α → Json} {read : Json → Option α}

-- ---------------------------------------------------------------------------
-- What can be read
-- ---------------------------------------------------------------------------

attribute [simp] Readable.null Readable.bool Readable.integer Readable.string

@[simp] theorem readable_nat (n : Nat) : Readable (.nat n) := .integer n

@[simp] theorem readable_object_iff {members : List (String × Json)} :
    Readable (.object members) ↔ ∀ m ∈ members, Readable m.2 :=
  ⟨fun h => by cases h with | object _ h => exact h, .object members⟩

/-- What is written is a text that can be read, and is read as it was. -/
structure Restores (write : α → Json) (read : Json → Option α) (a : α) : Prop where
  readable : Readable (write a)
  read_write : read (write a) = some a

theorem Restores.parsed {a : α} (h : Restores write read a) :
    (parse? (write a).render).bind read = some a := by
  rw [parse?_render h.readable]
  exact h.read_write

-- ---------------------------------------------------------------------------
-- Fields
-- ---------------------------------------------------------------------------

section
variable (read : Json → Option α) (default : α) (j : Json)

@[simp] theorem required_some : required read (some j) = read j := rfl

@[simp] theorem withDefault_some : withDefault read default (some j) = read j := rfl

@[simp] theorem textField_some : textField (some j) = j.text? := rfl

@[simp] theorem textField_none : textField none = some "" := rfl

@[simp] theorem optional_none : optional read none = some none := rfl

end

@[simp] theorem text?_string (s : String) : text? (.string s) = some s := rfl

@[simp] theorem bool?_bool (b : Bool) : bool? (.bool b) = some b := rfl

theorem natBelow?_nat {n bound : Nat} (h : n < bound) : natBelow? bound (.nat n) = some n :=
  if_pos h

theorem restores_string (s : String) : Restores .string text? s := ⟨.string s, rfl⟩

theorem optional_write {a : α} (h : Restores write read a) (hne : write a ≠ .null) :
    optional read (some (write a)) = some (some a) := by
  unfold optional
  split
  · next hj => cases hj
  · next hj => exact absurd (Option.some.inj hj) hne
  · next j _ hj =>
    cases hj
    rw [h.read_write]
    rfl

theorem readable_arrayOf (h : ∀ a, Restores write read a) (items : List α) :
    Readable (arrayOf write items) := by
  refine .array _ fun j hj => ?_
  obtain ⟨a, -, rfl⟩ := List.mem_map.mp hj
  exact (h a).readable

theorem listField_arrayOf (h : ∀ a, Restores write read a) (items : List α) :
    listField read (some (arrayOf write items)) = some items := by
  show (items.map write).mapM read = some items
  induction items with
  | nil => rfl
  | cons a items ih => simp [List.mapM_cons, (h a).read_write, ih]

end StageGate.Json
