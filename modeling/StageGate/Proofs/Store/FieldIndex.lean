import Mathlib.Tactic.Tauto
import StageGate.Store.FieldIndex

/-!
# What the index holds

An index is read through the keys that it has under a value and the values that it has for a key.
Main statements: the two say the same (`Sound`), and an update leaves the given values for its key
and changes those of no other.
-/

namespace StageGate

theorem mem_sortedDistinct {κ : Type} [Ord κ] [Std.TransOrd κ] [Std.LawfulEqOrd κ] {items : List κ}
    {x : κ} : x ∈ sortedDistinct items ↔ x ∈ items := by
  simp [sortedDistinct, SortedMap.mem_keys_ofList]

namespace FieldIndex

variable {i : FieldIndex} {byValue : SortedMap String (SortedSet PromotionKey)}
  {k key : PromotionKey} {v value : String} {values : List String}

-- ---------------------------------------------------------------------------
-- The keys under a value
-- ---------------------------------------------------------------------------

def keysUnder (byValue : SortedMap String (SortedSet PromotionKey)) (value : String) :
    SortedSet PromotionKey := (byValue.get? value).getD .empty

theorem lookup_eq (i : FieldIndex) (value : String) :
    i.lookup value = (keysUnder i.byValue value).keys := rfl

theorem mem_keysUnder_enter : k ∈ (keysUnder (enter key byValue value) v).keys ↔
    (k = key ∧ v = value) ∨ k ∈ (keysUnder byValue v).keys := by
  unfold keysUnder enter
  by_cases hv : v = value
  · simp [hv, SortedMap.mem_keys_insert]
  · simp [hv, SortedMap.get?_insert_of_ne]

/-- A value whose last key is taken from it is gone, which is as good as one with no keys. -/
theorem mem_keysUnder_withdraw : k ∈ (keysUnder (withdraw key byValue value) v).keys ↔
    ¬ (k = key ∧ v = value) ∧ k ∈ (keysUnder byValue v).keys := by
  unfold keysUnder withdraw
  by_cases hv : v = value
  · subst hv
    cases hkeys : byValue.get? v with
    | none => simp [hkeys, SortedMap.keys]
    | some keys =>
      have herased : k ∈ (keys.erase key).keys ↔ k ≠ key ∧ k ∈ keys.keys :=
        SortedMap.mem_keys_erase
      simp only [and_true, Option.getD_some]
      rw [← herased]
      split
      · next hnone => simp [SortedMap.keys, List.isEmpty_iff.mp hnone]
      · simp
  · simp only [hv, and_false, not_false_eq_true, true_and]
    split
    · rfl
    · split
      · rw [SortedMap.get?_erase_of_ne _ hv]
      · rw [SortedMap.get?_insert_of_ne _ _ hv]

theorem mem_keysUnder_foldl_enter : k ∈ (keysUnder (values.foldl (enter key) byValue) v).keys ↔
    (k = key ∧ v ∈ values) ∨ k ∈ (keysUnder byValue v).keys := by
  induction values generalizing byValue with
  | nil => simp
  | cons value values ih =>
    rw [List.foldl_cons, ih, mem_keysUnder_enter, List.mem_cons]
    tauto

theorem mem_keysUnder_foldl_withdraw :
    k ∈ (keysUnder (values.foldl (withdraw key) byValue) v).keys ↔
      ¬ (k = key ∧ v ∈ values) ∧ k ∈ (keysUnder byValue v).keys := by
  induction values generalizing byValue with
  | nil => simp
  | cons value values ih =>
    rw [List.foldl_cons, ih, mem_keysUnder_withdraw, List.mem_cons]
    tauto

-- ---------------------------------------------------------------------------
-- The values for a key
-- ---------------------------------------------------------------------------

def valuesFor (i : FieldIndex) (key : PromotionKey) : List String := (i.valuesOf.get? key).getD []

/-- The keys under a value are those that have the value. -/
def Sound (i : FieldIndex) : Prop := ∀ v k, k ∈ i.lookup v ↔ v ∈ i.valuesFor k

theorem sound_empty : Sound {} := fun v k => by simp [lookup, valuesFor, SortedMap.keys]

theorem valuesFor_remove (i : FieldIndex) (key k : PromotionKey) :
    (i.remove key).valuesFor k = if k = key then [] else i.valuesFor k := by
  unfold remove valuesFor
  split
  · next hnone =>
    split
    · next hk => rw [hk, hnone, Option.getD_none]
    · rfl
  · split
    · next hk => rw [hk, SortedMap.get?_erase_self, Option.getD_none]
    · next hk => rw [SortedMap.get?_erase_of_ne _ hk]

theorem Sound.remove (h : i.Sound) (key : PromotionKey) : (i.remove key).Sound := fun v k => by
  rw [valuesFor_remove]
  unfold FieldIndex.remove
  split
  · next hnone =>
    rw [h]
    split
    · next hk => rw [hk, valuesFor, hnone, Option.getD_none]
    · rfl
  · next values hvalues =>
    rw [lookup_eq, mem_keysUnder_foldl_withdraw, ← lookup_eq, h]
    split
    · next hk =>
      have hgiven : i.valuesFor key = values := by rw [valuesFor, hvalues, Option.getD_some]
      simp [hk, hgiven]
    · next hk => simp [hk]

theorem valuesFor_update (i : FieldIndex) (key : PromotionKey) (values : List String)
    (k : PromotionKey) :
    (i.update key values).valuesFor k = if k = key then values else i.valuesFor k := by
  unfold update
  split
  · next hnone =>
    rw [valuesFor_remove, List.isEmpty_iff.mp hnone]
  · split
    · next hk => rw [hk, valuesFor, SortedMap.get?_insert_self, Option.getD_some]
    · next hk =>
      have hother := valuesFor_remove i key k
      rw [if_neg hk] at hother
      rw [← hother, valuesFor, valuesFor, SortedMap.get?_insert_of_ne _ _ hk]

theorem Sound.update (h : i.Sound) (key : PromotionKey) (values : List String) :
    (i.update key values).Sound := fun v k => by
  have hleft := h.remove key v k
  rw [valuesFor_update]
  rw [valuesFor_remove] at hleft
  unfold FieldIndex.update
  split
  · next hnone => rw [hleft, List.isEmpty_iff.mp hnone]
  · rw [lookup_eq, mem_keysUnder_foldl_enter, ← lookup_eq, hleft]
    split
    · next hk => simp [hk]
    · next hk => simp [hk]

theorem sorted_lookup (i : FieldIndex) (value : String) :
    (i.lookup value).Pairwise fun a b => compare a b = .lt := SortedMap.sorted_keys _

end FieldIndex

end StageGate
