import Mathlib.Data.List.Induction
import StageGate.Proofs.Store.FieldIndex

/-!
# An index by the latest values

Keys are given values and lose them again, in any order; they may be given none, or one several
times. What came before the latest call for a key does not count. Main statement:
`found_by_latest`. A value is looked up by the keys whose latest call gave it to them, and the index
keeps no value that nobody has.
-/

namespace StageGate.FieldIndex

inductive Call where
  | update (key : PromotionKey) (values : List String)
  | remove (key : PromotionKey)
deriving DecidableEq

namespace Call

def key : Call → PromotionKey
  | update key _ | remove key => key

def values : Call → List String
  | update _ values => values
  | remove _ => []

end Call

def perform (i : FieldIndex) : Call → FieldIndex
  | .update key values => i.update key values
  | .remove key => i.remove key

def after (calls : List Call) : FieldIndex := calls.foldl perform {}

def latest (k : PromotionKey) (calls : List Call) : List String :=
  ((calls.reverse.find? (·.key = k)).map Call.values).getD []

variable {i : FieldIndex} {byValue : SortedMap String (SortedSet PromotionKey)}
  {k key : PromotionKey} {v value : String} {values : List String} {calls : List Call}

theorem after_concat (calls : List Call) (c : Call) :
    after (calls ++ [c]) = (after calls).perform c := by
  simp [after]

-- ---------------------------------------------------------------------------
-- The latest call for a key
-- ---------------------------------------------------------------------------

theorem latest_concat (k : PromotionKey) (calls : List Call) (c : Call) :
    latest k (calls ++ [c]) = if c.key = k then c.values else latest k calls := by
  by_cases hk : c.key = k <;> simp [latest, hk]

theorem mem_latest_iff : v ∈ latest k calls ↔ ∃ earlier values later,
    calls = earlier ++ .update k values :: later ∧ v ∈ values ∧ ∀ c ∈ later, c.key ≠ k := by
  constructor
  · intro h
    unfold latest at h
    cases hfind : calls.reverse.find? (·.key = k) with
    | none => simp [hfind] at h
    | some c =>
      obtain ⟨hkey, later, earlier, hcalls, hlater⟩ := List.find?_eq_some_iff_append.mp hfind
      have hkey : c.key = k := of_decide_eq_true hkey
      have hsplit : calls = earlier.reverse ++ c :: later.reverse := by
        rw [← List.reverse_reverse calls, hcalls]
        simp
      cases c with
      | update key values =>
        cases hkey
        refine ⟨_, values, _, hsplit, by simpa [hfind, Call.values] using h, ?_⟩
        simpa using hlater
      | remove key => simp [hfind, Call.values] at h
  · rintro ⟨earlier, values, later, rfl, hv, hlater⟩
    induction later using List.reverseRecOn with
    | nil => simpa [latest_concat, Call.key, Call.values] using hv
    | append_singleton later c ih =>
      have hc : c.key ≠ k := hlater c (by simp)
      rw [← List.cons_append, ← List.append_assoc, latest_concat, if_neg hc]
      exact ih fun d hd => hlater d (by simp [hd])

theorem valuesFor_perform (i : FieldIndex) (c : Call) (k : PromotionKey) :
    (i.perform c).valuesFor k = if c.key = k then c.values else i.valuesFor k := by
  cases c with
  | update key values => simp [perform, valuesFor_update, Call.key, Call.values, eq_comm]
  | remove key => simp [perform, valuesFor_remove, Call.key, Call.values, eq_comm]

theorem Sound.perform (h : i.Sound) (c : Call) : (i.perform c).Sound := by
  cases c with
  | update key values => exact h.update key values
  | remove key => exact h.remove key

theorem sound_after (calls : List Call) : (after calls).Sound := by
  induction calls using List.reverseRecOn with
  | nil => exact sound_empty
  | append_singleton calls c ih =>
    rw [after_concat]
    exact ih.perform c

theorem valuesFor_after (k : PromotionKey) (calls : List Call) :
    (after calls).valuesFor k = latest k calls := by
  induction calls using List.reverseRecOn with
  | nil => rfl
  | append_singleton calls c ih => rw [after_concat, valuesFor_perform, latest_concat, ih]

-- ---------------------------------------------------------------------------
-- Values without keys
-- ---------------------------------------------------------------------------

/-- No value is kept that no key has. -/
def NoneIdle (byValue : SortedMap String (SortedSet PromotionKey)) : Prop :=
  ∀ v keys, byValue.get? v = some keys → keys.toList ≠ []

theorem NoneIdle.insert {keys : SortedSet PromotionKey} (h : NoneIdle byValue)
    (some_key : keys.toList ≠ []) : NoneIdle (byValue.insert value keys) := by
  intro v found hfound
  by_cases hv : v = value
  · subst hv
    rw [SortedMap.get?_insert_self] at hfound
    exact Option.some.inj hfound ▸ some_key
  · rw [SortedMap.get?_insert_of_ne _ _ hv] at hfound
    exact h v found hfound

theorem NoneIdle.erase (h : NoneIdle byValue) : NoneIdle (byValue.erase value) := by
  intro v found hfound
  by_cases hv : v = value
  · subst hv
    simp at hfound
  · rw [SortedMap.get?_erase_of_ne _ hv] at hfound
    exact h v found hfound

theorem NoneIdle.enter (h : NoneIdle byValue) (key : PromotionKey) (value : String) :
    NoneIdle (enter key byValue value) := by
  refine h.insert fun hnone => ?_
  have hkey : key ∈ ((((byValue.get? value).getD .empty).insert key ()).keys) :=
    SortedMap.mem_keys_insert.mpr (.inl rfl)
  simp [SortedMap.keys, hnone] at hkey

theorem NoneIdle.withdraw (h : NoneIdle byValue) (key : PromotionKey) (value : String) :
    NoneIdle (withdraw key byValue value) := by
  unfold FieldIndex.withdraw
  split
  · exact h
  · split
    · exact h.erase
    · next hleft => exact h.insert (by simpa using hleft)

theorem NoneIdle.foldl {f : SortedMap String (SortedSet PromotionKey) → String →
      SortedMap String (SortedSet PromotionKey)}
    (step : ∀ byValue value, NoneIdle byValue → NoneIdle (f byValue value))
    (values : List String) (h : NoneIdle byValue) : NoneIdle (values.foldl f byValue) := by
  induction values generalizing byValue with
  | nil => exact h
  | cons value values ih => exact ih (step byValue value h)

theorem NoneIdle.remove (h : NoneIdle i.byValue) (key : PromotionKey) :
    NoneIdle (i.remove key).byValue := by
  unfold FieldIndex.remove
  split
  · exact h
  · exact h.foldl (fun _ value hold => hold.withdraw key value) _

theorem NoneIdle.update (h : NoneIdle i.byValue) (key : PromotionKey) (values : List String) :
    NoneIdle (i.update key values).byValue := by
  unfold FieldIndex.update
  split
  · exact h.remove key
  · exact (h.remove key).foldl (fun _ value hold => hold.enter key value) _

theorem noneIdle_after (calls : List Call) : NoneIdle (after calls).byValue := by
  induction calls using List.reverseRecOn with
  | nil =>
    intro v keys h
    cases h
  | append_singleton calls c ih =>
    rw [after_concat]
    cases c with
    | update key values => exact ih.update key values
    | remove key => exact ih.remove key

/-- After any calls on an empty index: the keys found under a value rise strictly, and they are
those that an update gave the value as one of theirs, with no later call for the key. No value is
kept with no keys under it. -/
theorem found_by_latest (calls : List Call) :
    (∀ value, ((after calls).lookup value).Pairwise (fun a b => compare a b = .lt) ∧
      ∀ k, k ∈ (after calls).lookup value ↔ ∃ earlier values later,
        calls = earlier ++ .update k values :: later ∧ value ∈ values ∧
          ∀ c ∈ later, c.key ≠ k) ∧
    ∀ value keys, (after calls).byValue.get? value = some keys → keys.toList ≠ [] := by
  refine ⟨fun value => ⟨sorted_lookup _ value, fun k => ?_⟩, noneIdle_after calls⟩
  rw [sound_after calls value k, valuesFor_after]
  exact mem_latest_iff

def moved : List Call :=
  [.update ⟨"ns", "a"⟩ ["x", "y", "x"], .update ⟨"ns", "b"⟩ ["x"], .update ⟨"ns", "a"⟩ ["y"]]

theorem found_by_latest_sample : ∃ keys, (after moved).byValue.get? "x" = some keys ∧
    keys.toList ≠ [] ∧ ⟨"ns", "b"⟩ ∈ (after moved).lookup "x" ∧
    ⟨"ns", "a"⟩ ∉ (after moved).lookup "x" := by
  obtain ⟨hfound, hnone⟩ := found_by_latest moved
  have hb : ⟨"ns", "b"⟩ ∈ (after moved).lookup "x" := by
    refine ((hfound "x").2 _).mpr ⟨[_], ["x"], [_], rfl, List.mem_singleton_self _, ?_⟩
    decide
  cases hkeys : (after moved).byValue.get? "x" with
  | none =>
    unfold lookup at hb
    simp [hkeys, SortedMap.keys] at hb
  | some keys => exact ⟨keys, rfl, hnone "x" keys hkeys, hb, by decide +kernel⟩

end StageGate.FieldIndex
