import StageGate.Backlog

/-!
# Stable sorting

A stable sort leaves items that are tied in the order in which they came. It is determined by that:
`Sorts.unique`. So a line that every item enters behind those it does not precede is the stable sort
of what came (`insertBehind_mergeSort`), and it stays so when items drop out (`filter_mergeSort`).
-/

namespace StageGate

universe u

variable {α : Type u} {le : α → α → Bool} {a b : α} {came s t : List α}

structure Ranks (le : α → α → Bool) : Prop where
  total : ∀ a b, le a b || le b a
  trans : ∀ a b c, le a b → le b c → le a c

def tied (le : α → α → Bool) (a b : α) : Bool := le a b && le b a

/-- A rising list in which every class of tied items is as it came. -/
structure Sorts (le : α → α → Bool) (came s : List α) : Prop where
  rises : s.Pairwise (le · ·)
  ties : ∀ a, s.filter (tied le a) = came.filter (tied le a)

theorem tied_iff : tied le a b = true ↔ le a b = true ∧ le b a = true := by simp [tied]

namespace Ranks

variable (ranks : Ranks le)
include ranks

theorem refl (a : α) : le a a = true := by simpa using ranks.total a a

theorem le_of_not_le (h : le a b = false) : le b a = true := by simpa [h] using ranks.total a b

theorem tied_self (a : α) : tied le a a = true := tied_iff.mpr ⟨ranks.refl a, ranks.refl a⟩

-- ---------------------------------------------------------------------------
-- There is one stable sort
-- ---------------------------------------------------------------------------

theorem head_le (h : (a :: s).Pairwise (le · ·)) (hb : b ∈ a :: s) : le a b = true := by
  rcases List.mem_cons.mp hb with rfl | hb
  · exact ranks.refl b
  · exact (List.pairwise_cons.mp h).1 b hb

theorem mem_of_ties (ties : ∀ a, s.filter (tied le a) = t.filter (tied le a)) :
    a ∈ s ↔ a ∈ t := by
  have hclass (l : List α) : a ∈ l ↔ a ∈ l.filter (tied le a) := by
    simp [List.mem_filter, ranks.tied_self a]
  rw [hclass s, hclass t, ties]

theorem eq_of_ties (hs : s.Pairwise (le · ·)) (ht : t.Pairwise (le · ·))
    (ties : ∀ a, s.filter (tied le a) = t.filter (tied le a)) : s = t := by
  have hmem := fun a => ranks.mem_of_ties (a := a) ties
  induction s generalizing t with
  | nil => exact (List.eq_nil_iff_forall_not_mem.mpr fun a ha => by cases (hmem a).mpr ha).symm
  | cons a s ih =>
    cases t with
    | nil => cases (hmem a).mp List.mem_cons_self
    | cons b t =>
      -- Each of the two heads goes before the other, so they head one class.
      have hab : tied le a b = true := tied_iff.mpr
        ⟨ranks.head_le hs ((hmem b).mpr List.mem_cons_self),
          ranks.head_le ht ((hmem a).mp List.mem_cons_self)⟩
      obtain rfl : a = b := by
        have hclass := ties a
        rw [List.filter_cons_of_pos (ranks.tied_self a), List.filter_cons_of_pos hab] at hclass
        exact (List.cons.inj hclass).1
      have hrest : ∀ c, s.filter (tied le c) = t.filter (tied le c) := fun c => by
        have hclass := ties c
        by_cases hc : tied le c a = true
        · rw [List.filter_cons_of_pos hc, List.filter_cons_of_pos hc] at hclass
          exact (List.cons.inj hclass).2
        · rwa [List.filter_cons_of_neg hc, List.filter_cons_of_neg hc] at hclass
      exact congrArg (a :: ·) (ih hs.tail ht.tail hrest fun c => ranks.mem_of_ties hrest)

theorem unique (h : Sorts le came s) (h' : Sorts le came t) : s = t :=
  ranks.eq_of_ties h.rises h'.rises fun a => (h.ties a).trans (h'.ties a).symm

theorem sorts_mergeSort (came : List α) : Sorts le came (came.mergeSort le) where
  rises := List.pairwise_mergeSort ranks.trans ranks.total came
  ties a := by
    have hrises : (came.filter (tied le a)).Pairwise (le · ·) := by
      refine List.pairwise_of_forall_mem_list fun b hb c hc => ?_
      have hba := (tied_iff.mp (List.mem_filter.mp hb).2).2
      have hac := (tied_iff.mp (List.mem_filter.mp hc).2).1
      exact ranks.trans b a c hba hac
    have hsub : (came.filter (tied le a)).Sublist ((came.mergeSort le).filter (tied le a)) := by
      have hclass := (List.sublist_mergeSort ranks.trans ranks.total hrises
        List.filter_sublist).filter (tied le a)
      simpa [List.filter_filter] using hclass
    exact (hsub.eq_of_length ((List.mergeSort_perm came le).filter _).length_eq.symm).symm

theorem eq_mergeSort (h : Sorts le came s) : s = came.mergeSort le :=
  ranks.unique h (ranks.sorts_mergeSort came)

-- ---------------------------------------------------------------------------
-- Items that come and go
-- ---------------------------------------------------------------------------

theorem filter_mergeSort (p : α → Bool) (came : List α) :
    (came.mergeSort le).filter p = (came.filter p).mergeSort le := by
  have h := ranks.sorts_mergeSort came
  refine ranks.eq_mergeSort ⟨h.rises.filter p, fun a => ?_⟩
  have hswap (l : List α) : (l.filter p).filter (tied le a) = (l.filter (tied le a)).filter p := by
    rw [List.filter_filter, List.filter_filter]
    simp only [Bool.and_comm]
  rw [hswap, h.ties, hswap]

end Ranks

namespace Backlog

variable {order : α → α → Ordering} {item x : α}

def before (order : α → α → Ordering) (a b : α) : Bool := order a b != .gt

theorem before_iff : before order a b = true ↔ order a b ≠ .gt := by simp [before]

theorem ranks_before (order : α → α → Ordering) [Std.TransCmp order] : Ranks (before order) where
  total a b := by
    rw [Bool.or_eq_true, before_iff, before_iff]
    cases h : order a b with
    | gt => exact .inr (by rw [Std.OrientedCmp.lt_of_gt h]; decide)
    | _ => exact .inl (by decide)
  trans a b c hab hbc := by
    simp only [before_iff, Ordering.ne_gt_iff_isLE] at hab hbc ⊢
    exact Std.TransCmp.isLE_trans hab hbc

/-- An item enters where those end that go before it. -/
theorem insertBehind_eq (order : α → α → Ordering) (item : α) (items : List α) :
    insertBehind order item items = items.takeWhile (before order · item) ++
      item :: items.dropWhile (before order · item) := by
  induction items with
  | nil => rfl
  | cons queued rest ih =>
    simp only [insertBehind, List.takeWhile_cons, List.dropWhile_cons]
    by_cases hq : order queued item = .gt
    · simp [before, hq]
    · simp [before, hq]
      exact ih

theorem not_before_of_mem_dropWhile (ranks : Ranks (before order))
    (h : s.Pairwise (before order · ·)) (hx : x ∈ s.dropWhile (before order · item)) :
    before order x item = false := by
  induction s with
  | nil => cases hx
  | cons queued rest ih =>
    by_cases hq : before order queued item = true
    · rw [List.dropWhile_cons, if_pos hq] at hx
      exact ih h.tail hx
    · rw [List.dropWhile_cons, if_neg hq] at hx
      have hle : before order queued x = true := ranks.head_le h hx
      exact Bool.eq_false_iff.mpr fun hxi => hq (ranks.trans _ _ _ hle hxi)

theorem sorts_insertBehind (ranks : Ranks (before order)) (h : Sorts (before order) came s)
    (item : α) : Sorts (before order) (came ++ [item]) (insertBehind order item s) := by
  rw [insertBehind_eq]
  have hsplit := List.takeWhile_append_dropWhile (p := (before order · item)) (l := s)
  have hfront : ∀ x ∈ s.takeWhile (before order · item), before order x item = true :=
    List.all_eq_true.mp List.all_takeWhile
  have hback : ∀ x ∈ s.dropWhile (before order · item), before order x item = false :=
    fun x hx => not_before_of_mem_dropWhile ranks h.rises hx
  generalize s.takeWhile (before order · item) = front at *
  generalize s.dropWhile (before order · item) = back at *
  subst hsplit
  obtain ⟨hrises, hrises', hcross⟩ := List.pairwise_append.mp h.rises
  refine ⟨List.pairwise_append.mpr ⟨hrises, List.pairwise_cons.mpr ⟨fun x hx => ?_, hrises'⟩,
    fun x hx y hy => ?_⟩, fun c => ?_⟩
  · exact ranks.le_of_not_le (hback x hx)
  · rcases List.mem_cons.mp hy with rfl | hy
    · exact hfront x hx
    · exact hcross x hx y hy
  · rw [List.filter_append came, ← h.ties, List.filter_append, List.filter_append,
      List.append_assoc]
    congr 1
    by_cases hc : tied (before order) c item = true
    · -- Whoever is tied with the item stands in front of it.
      have hnone : back.filter (tied (before order) c) = [] := by
        refine List.filter_eq_nil_iff.mpr fun x hx hcx => ?_
        have hxi := ranks.trans x c item (tied_iff.mp hcx).2 (tied_iff.mp hc).1
        rw [hback x hx] at hxi
        cases hxi
      simp [hc, hnone]
    · simp [hc]

theorem insertBehind_mergeSort (ranks : Ranks (before order)) (item : α) (came : List α) :
    insertBehind order item (came.mergeSort (before order)) =
      (came ++ [item]).mergeSort (before order) :=
  ranks.eq_mergeSort (sorts_insertBehind ranks (ranks.sorts_mergeSort came) item)

end Backlog

end StageGate
