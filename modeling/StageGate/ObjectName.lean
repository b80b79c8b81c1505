import StageGate.Text.Quoted

/-!
# Names of objects

A name is a DNS-1123 subdomain: labels of lower case letters, digits and hyphens, divided by dots,
where no label is empty or has a hyphen at an end. The scan reads a name once, from left to right.
-/

namespace StageGate.ObjectName

inductive Fault where
  | empty
  | tooLong
  | malformed
deriving DecidableEq, Repr

def Fault.reason : Fault → String
  | .empty => "must not be empty"
  | .tooLong => "must be no more than 253 characters"
  | .malformed => "must consist of lower case alphanumeric characters, '-' or '.'"

def longest : Nat := 253

def isAlphanumeric (c : Char) : Bool := ('a' ≤ c && c ≤ 'z') || ('0' ≤ c && c ≤ '9')

/-- Where a scan stands within a label. -/
inductive Place where
  /-- Before the first character of a label. -/
  | start
  /-- After a letter or a digit. -/
  | inside
  | hyphen
deriving DecidableEq, Repr

/-- One character on; nothing if it cannot stand here. -/
def Place.step (c : Char) : Place → Option Place
  | .start => if isAlphanumeric c then some .inside else none
  | .inside =>
    if isAlphanumeric c then some .inside
    else if c = '-' then some .hyphen
    else if c = '.' then some .start
    else none
  | .hyphen =>
    if isAlphanumeric c then some .inside else if c = '-' then some .hyphen else none

/-- Whether a name may go on with these characters and end. -/
def scan : Place → List Char → Bool
  | place, [] => place == .inside
  | place, c :: s =>
    match place.step c with
    | some next => scan next s
    | none => false

theorem allowed_of_step {place next : Place} {c : Char} (h : place.step c = some next) :
    isAlphanumeric c ∨ c = '-' ∨ c = '.' := by
  cases place <;> grind [Place.step]

/-- A name consists of letters, digits, hyphens and dots. -/
theorem allowed_of_scan {place : Place} {s : List Char} (h : scan place s) :
    ∀ c ∈ s, isAlphanumeric c ∨ c = '-' ∨ c = '.' := by
  induction s generalizing place with
  | nil => simp
  | cons c s ih =>
    unfold scan at h
    split at h
    · next after hstep => exact List.forall_mem_cons.mpr ⟨allowed_of_step hstep, ih h⟩
    · cases h

def fault? (name : String) : Option Fault :=
  if name = "" then some .empty
  else if longest < name.utf8ByteSize then some .tooLong
  else if scan .start name.toList then none
  else some .malformed

end StageGate.ObjectName
