/-!
# Maps kept in key order

A `SortedMap` holds its entries as a list whose keys strictly increase, so two maps with the
same look-ups are the same map. Main statements: `get?_insert` and `get?_erase` say what the two
writes do to a look-up, `mem_toList_iff` that the entries are exactly the look-ups, and `ext_get?`
that look-ups determine the map.
-/

namespace StageGate

universe u v w

variable {κ : Type u} {α : Type v} {β : Type w}

/-- A finite map, as the list of its entries in strictly increasing key order. -/
structure SortedMap (κ : Type u) (α : Type v) [Ord κ] where
  toList : List (κ × α)
  sorted : toList.Pairwise fun a b => compare a.1 b.1 = .lt

namespace SortedMap

-- ---------------------------------------------------------------------------
-- Entries
-- ---------------------------------------------------------------------------

/-- Puts an entry at its place, over an entry of the same key. -/
def insertEntry [Ord κ] (key : κ) (value : α) : List (κ × α) → List (κ × α)
  | [] => [(key, value)]
  | (k, a) :: rest =>
    match compare key k with
    | .lt => (key, value) :: (k, a) :: rest
    | .eq => (key, value) :: rest
    | .gt => (k, a) :: insertEntry key value rest

def findEntry [Ord κ] (key : κ) : List (κ × α) → Option α
  | [] => none
  | (k, a) :: rest => if compare key k = .eq then some a else findEntry key rest

theorem mem_insertEntry [Ord κ] {key : κ} {value : α} {entries : List (κ × α)} {e : κ × α}
    (h : e ∈ insertEntry key value entries) : e = (key, value) ∨ e ∈ entries := by
  induction entries with
  | nil => simpa [insertEntry] using h
  | cons first rest ih =>
    obtain ⟨k, a⟩ := first
    simp only [insertEntry] at h
    split at h
    · simpa using h
    · rcases List.mem_cons.1 h with h | h
      · exact .inl h
      · exact .inr (List.mem_cons_of_mem _ h)
    · rcases List.mem_cons.1 h with h | h
      · exact .inr (h ▸ List.mem_cons_self)
      · exact (ih h).imp id (List.mem_cons_of_mem _)

theorem sorted_insertEntry [Ord κ] [Std.TransOrd κ] (key : κ) (value : α)
    {entries : List (κ × α)} (h : entries.Pairwise fun a b => compare a.1 b.1 = .lt) :
    (insertEntry key value entries).Pairwise fun a b => compare a.1 b.1 = .lt := by
  induction entries with
  | nil => simp [insertEntry]
  | cons first rest ih =>
    obtain ⟨k, a⟩ := first
    have hr := List.pairwise_cons.1 h
    simp only [insertEntry]
    split
    · next hc =>
      refine List.pairwise_cons.2 ⟨fun b hb => ?_, h⟩
      rcases List.mem_cons.1 hb with rfl | hb
      · exact hc
      · exact Std.TransCmp.lt_trans hc (hr.1 b hb)
    · next hc =>
      exact List.pairwise_cons.2 ⟨fun b hb => Std.TransCmp.lt_of_eq_of_lt hc (hr.1 b hb), hr.2⟩
    · next hc =>
      refine List.pairwise_cons.2 ⟨fun b hb => ?_, ih hr.2⟩
      rcases mem_insertEntry hb with rfl | hb
      · exact Std.OrientedCmp.lt_of_gt hc
      · exact hr.1 b hb

theorem findEntry_insertEntry [Ord κ] [Std.TransOrd κ] (key : κ) (value : α) (other : κ)
    (entries : List (κ × α)) :
    findEntry other (insertEntry key value entries) =
      if compare other key = .eq then some value else findEntry other entries := by
  induction entries with
  | nil => rfl
  | cons first rest ih =>
    obtain ⟨k, a⟩ := first
    simp only [insertEntry]
    split
    · rfl
    · next hc =>
      by_cases ho : compare other key = .eq
      · simp [findEntry, ho]
      · have : compare other k ≠ .eq := fun he =>
          ho (Std.TransCmp.eq_trans he (Std.OrientedCmp.eq_symm hc))
        simp [findEntry, ho, this]
    · next hc =>
      by_cases ho : compare other key = .eq
      · have : compare other k ≠ .eq := fun he => by
          have := Std.TransCmp.eq_trans (Std.OrientedCmp.eq_symm ho) he
          rw [this] at hc; cases hc
        simp [findEntry, ho, this, ih]
      · simp [findEntry, ho, ih]

theorem findEntry_filter_ne [Ord κ] [Std.TransOrd κ] (key other : κ) (entries : List (κ × α)) :
    findEntry other (entries.filter fun e => compare e.1 key != .eq) =
      if compare other key = .eq then none else findEntry other entries := by
  induction entries with
  | nil => simp [findEntry]
  | cons first rest ih =>
    obtain ⟨k, a⟩ := first
    by_cases hk : compare k key = .eq
    · simp only [List.filter_cons, hk, bne_self_eq_false, Bool.false_eq_true, if_false, ih]
      by_cases ho : compare other key = .eq
      · simp [ho]
      · have : compare other k ≠ .eq := fun he => ho (Std.TransCmp.eq_trans he hk)
        simp [findEntry, ho, this]
    · have hb : (compare k key != .eq) = true := by simpa using hk
      simp only [List.filter_cons, hb, if_true, findEntry, ih]
      by_cases he : compare other k = .eq
      · have : compare other key ≠ .eq := fun ho =>
          hk (Std.TransCmp.eq_trans (Std.OrientedCmp.eq_symm he) ho)
        simp [he, this]
      · simp [he]

theorem findEntry_eq_some_iff [Ord κ] [Std.TransOrd κ] [Std.LawfulEqOrd κ] {key : κ} {value : α}
    {entries : List (κ × α)} (h : entries.Pairwise fun a b => compare a.1 b.1 = .lt) :
    findEntry key entries = some value ↔ (key, value) ∈ entries := by
  induction entries with
  | nil => simp [findEntry]
  | cons first rest ih =>
    obtain ⟨k, a⟩ := first
    have hr := List.pairwise_cons.1 h
    by_cases hk : compare key k = .eq
    · have hkk : key = k := Std.LawfulEqOrd.eq_of_compare hk
      subst hkk
      simp only [findEntry, hk, if_true, Option.some.injEq, List.mem_cons, Prod.mk.injEq, true_and]
      constructor
      · exact fun h => .inl h.symm
      · rintro (h | h)
        · exact h.symm
        · have := hr.1 _ h
          simp [Std.ReflCmp.compare_self] at this
    · have hne : key ≠ k := fun e => hk (e ▸ Std.ReflCmp.compare_self)
      simp [findEntry, hk, ih hr.2, hne]

-- ---------------------------------------------------------------------------
-- Maps
-- ---------------------------------------------------------------------------

variable [Ord κ]

def empty : SortedMap κ α := ⟨[], .nil⟩

instance : EmptyCollection (SortedMap κ α) := ⟨empty⟩
instance : Inhabited (SortedMap κ α) := ⟨empty⟩

instance [DecidableEq κ] [DecidableEq α] : DecidableEq (SortedMap κ α) := fun a b =>
  if h : a.toList = b.toList then
    .isTrue (by cases a; cases b; cases h; rfl)
  else
    .isFalse (fun e => h (e ▸ rfl))

def get? (m : SortedMap κ α) (key : κ) : Option α := findEntry key m.toList

def contains (m : SortedMap κ α) (key : κ) : Bool := (m.get? key).isSome

def keys (m : SortedMap κ α) : List κ := m.toList.map (·.1)

def values (m : SortedMap κ α) : List α := m.toList.map (·.2)

def insert [Std.TransOrd κ] (m : SortedMap κ α) (key : κ) (value : α) : SortedMap κ α :=
  ⟨insertEntry key value m.toList, sorted_insertEntry key value m.sorted⟩

def erase (m : SortedMap κ α) (key : κ) : SortedMap κ α :=
  ⟨m.toList.filter fun e => compare e.1 key != .eq, m.sorted.filter _⟩

/-- The last entry of a key wins. -/
def ofList [Std.TransOrd κ] (entries : List (κ × α)) : SortedMap κ α :=
  entries.foldl (fun m e => m.insert e.1 e.2) empty

def map (f : α → β) (m : SortedMap κ α) : SortedMap κ β :=
  ⟨m.toList.map fun e => (e.1, f e.2), m.sorted.map _ fun _ _ h => h⟩

@[simp] theorem get?_empty (key : κ) : (empty : SortedMap κ α).get? key = none := rfl

@[simp] theorem toList_empty : (empty : SortedMap κ α).toList = [] := rfl

theorem get?_insert [Std.TransOrd κ] (m : SortedMap κ α) (key : κ) (value : α) (other : κ) :
    (m.insert key value).get? other =
      if compare other key = .eq then some value else m.get? other :=
  findEntry_insertEntry key value other m.toList

@[simp] theorem get?_insert_self [Std.TransOrd κ] (m : SortedMap κ α) (key : κ) (value : α) :
    (m.insert key value).get? key = some value := by
  simp [get?_insert, Std.ReflCmp.compare_self]

theorem get?_insert_of_ne [Std.TransOrd κ] [Std.LawfulEqOrd κ] (m : SortedMap κ α) {key other : κ}
    (value : α) (h : other ≠ key) : (m.insert key value).get? other = m.get? other := by
  have : compare other key ≠ .eq := fun e => h (Std.LawfulEqOrd.eq_of_compare e)
  simp [get?_insert, this]

theorem get?_erase [Std.TransOrd κ] (m : SortedMap κ α) (key other : κ) :
    (m.erase key).get? other = if compare other key = .eq then none else m.get? other :=
  findEntry_filter_ne key other m.toList

@[simp] theorem get?_erase_self [Std.TransOrd κ] (m : SortedMap κ α) (key : κ) :
    (m.erase key).get? key = none := by
  simp [get?_erase, Std.ReflCmp.compare_self]

theorem get?_erase_of_ne [Std.TransOrd κ] [Std.LawfulEqOrd κ] (m : SortedMap κ α) {key other : κ}
    (h : other ≠ key) : (m.erase key).get? other = m.get? other := by
  have : compare other key ≠ .eq := fun e => h (Std.LawfulEqOrd.eq_of_compare e)
  simp [get?_erase, this]

theorem mem_toList_iff [Std.TransOrd κ] [Std.LawfulEqOrd κ] (m : SortedMap κ α) {key : κ}
    {value : α} : (key, value) ∈ m.toList ↔ m.get? key = some value :=
  (findEntry_eq_some_iff m.sorted).symm

theorem mem_keys_iff [Std.TransOrd κ] [Std.LawfulEqOrd κ] (m : SortedMap κ α) {key : κ} :
    key ∈ m.keys ↔ (m.get? key).isSome := by
  simp only [keys, List.mem_map, Option.isSome_iff_exists]
  constructor
  · rintro ⟨e, he, rfl⟩
    exact ⟨e.2, m.mem_toList_iff.1 he⟩
  · rintro ⟨a, ha⟩
    exact ⟨(key, a), m.mem_toList_iff.2 ha, rfl⟩

theorem mem_keys_insert [Std.TransOrd κ] [Std.LawfulEqOrd κ] {m : SortedMap κ α} {key other : κ}
    {value : α} : other ∈ (m.insert key value).keys ↔ other = key ∨ other ∈ m.keys := by
  rw [mem_keys_iff, mem_keys_iff]
  by_cases h : other = key
  · simp [h]
  · simp [get?_insert_of_ne _ _ h, h]

theorem mem_keys_erase [Std.TransOrd κ] [Std.LawfulEqOrd κ] {m : SortedMap κ α} {key other : κ} :
    other ∈ (m.erase key).keys ↔ other ≠ key ∧ other ∈ m.keys := by
  rw [mem_keys_iff, mem_keys_iff]
  by_cases h : other = key
  · simp [h]
  · simp [get?_erase_of_ne _ h, h]

theorem mem_keys_foldl_insert [Std.TransOrd κ] [Std.LawfulEqOrd κ] {entries : List (κ × α)}
    {m : SortedMap κ α} {key : κ} :
    key ∈ (entries.foldl (fun m e => m.insert e.1 e.2) m).keys ↔
      key ∈ entries.map (·.1) ∨ key ∈ m.keys := by
  induction entries generalizing m with
  | nil => simp
  | cons e entries ih =>
    rw [List.foldl_cons, ih, mem_keys_insert, List.map_cons, List.mem_cons]
    exact or_left_comm.trans or_assoc.symm

theorem mem_keys_ofList [Std.TransOrd κ] [Std.LawfulEqOrd κ] {entries : List (κ × α)} {key : κ} :
    key ∈ (ofList entries).keys ↔ key ∈ entries.map (·.1) :=
  mem_keys_foldl_insert.trans (or_iff_left List.not_mem_nil)

theorem mem_values_iff [Std.TransOrd κ] [Std.LawfulEqOrd κ] (m : SortedMap κ α) {value : α} :
    value ∈ m.values ↔ ∃ key, m.get? key = some value := by
  simp only [values, List.mem_map]
  constructor
  · rintro ⟨e, he, rfl⟩
    exact ⟨e.1, m.mem_toList_iff.1 he⟩
  · rintro ⟨key, h⟩
    exact ⟨(key, value), m.mem_toList_iff.2 h, rfl⟩

theorem sorted_keys (m : SortedMap κ α) : m.keys.Pairwise fun a b => compare a b = .lt :=
  List.pairwise_map.2 m.sorted

theorem entries_ext [Std.TransOrd κ] {a b : List (κ × α)}
    (ha : a.Pairwise fun x y => compare x.1 y.1 = .lt)
    (hb : b.Pairwise fun x y => compare x.1 y.1 = .lt) (h : ∀ e, e ∈ a ↔ e ∈ b) : a = b := by
  induction a generalizing b with
  | nil =>
    cases b with
    | nil => rfl
    | cons y b => exact absurd ((h y).2 List.mem_cons_self) (by simp)
  | cons x a ih =>
    cases b with
    | nil => exact absurd ((h x).1 List.mem_cons_self) (by simp)
    | cons y b =>
      have hxa := List.pairwise_cons.1 ha
      have hyb := List.pairwise_cons.1 hb
      have hxy : x = y := by
        rcases List.mem_cons.1 ((h x).1 List.mem_cons_self) with e | hx
        · exact e
        · rcases List.mem_cons.1 ((h y).2 List.mem_cons_self) with e | hy
          · exact e.symm
          · have h₁ := hyb.1 x hx
            have h₂ := hxa.1 y hy
            have := Std.TransCmp.lt_trans h₁ h₂
            simp [Std.ReflCmp.compare_self] at this
      subst hxy
      have irrefl : ∀ e : κ × α, compare e.1 e.1 ≠ .lt := fun e => by
        simp [Std.ReflCmp.compare_self]
      congr 1
      refine ih hxa.2 hyb.2 fun e => ⟨fun he => ?_, fun he => ?_⟩
      · rcases List.mem_cons.1 ((h e).1 (List.mem_cons_of_mem _ he)) with rfl | h'
        · exact absurd (hxa.1 e he) (irrefl e)
        · exact h'
      · rcases List.mem_cons.1 ((h e).2 (List.mem_cons_of_mem _ he)) with rfl | h'
        · exact absurd (hyb.1 e he) (irrefl e)
        · exact h'

theorem ext_get? [Std.TransOrd κ] [Std.LawfulEqOrd κ] {a b : SortedMap κ α}
    (h : ∀ key, a.get? key = b.get? key) : a = b := by
  have : a.toList = b.toList := entries_ext a.sorted b.sorted fun e => by
    rw [show e = (e.1, e.2) from rfl, a.mem_toList_iff, b.mem_toList_iff, h]
  cases a; cases b; cases this; rfl

-- ---------------------------------------------------------------------------
-- From entries and back
-- ---------------------------------------------------------------------------

theorem insertEntry_last [Std.TransOrd κ] {key : κ} {value : α} {entries : List (κ × α)}
    (h : ∀ e ∈ entries, compare e.1 key = .lt) :
    insertEntry key value entries = entries ++ [(key, value)] := by
  induction entries with
  | nil => rfl
  | cons first rest ih =>
    have hfirst : compare key first.1 = .gt := Std.OrientedCmp.gt_of_lt (h first List.mem_cons_self)
    simp only [insertEntry, hfirst, ih fun e he => h e (List.mem_cons_of_mem _ he),
      List.cons_append]

/-- Entries that come in order are put behind those that are there. -/
theorem toList_foldl_insert [Std.TransOrd κ] {entries : List (κ × α)} {m : SortedMap κ α}
    (h : (m.toList ++ entries).Pairwise fun a b => compare a.1 b.1 = .lt) :
    (entries.foldl (fun m e => m.insert e.1 e.2) m).toList = m.toList ++ entries := by
  induction entries generalizing m with
  | nil => simp
  | cons e entries ih =>
    have hlast : (m.insert e.1 e.2).toList = m.toList ++ [e] :=
      insertEntry_last fun x hx => (List.pairwise_append.1 h).2.2 x hx e List.mem_cons_self
    rw [List.foldl_cons, ih (by rwa [hlast, List.append_assoc]), hlast, List.append_assoc]
    rfl

theorem ext_toList {a b : SortedMap κ α} (h : a.toList = b.toList) : a = b := by
  cases a; cases b; cases h; rfl

/-- A map is had back from its entries. -/
theorem ofList_toList [Std.TransOrd κ] (m : SortedMap κ α) : ofList m.toList = m :=
  ext_toList (toList_foldl_insert (m := empty) m.sorted)

end SortedMap

end StageGate
