import StageGate.Proofs.Gates.Effects

/-!
# Every promotion stands at a gate once

A promotion holds a stage or waits at one place in its line, never both. What leaves a line can then
be counted: a promotion that was taken out of the line no longer stands at the gate, and all others
stand there as before. Main statements: `Distinct.stands_rest` and one lemma for each operation,
which says that it keeps the gate distinct.
-/

namespace StageGate

theorem Backlog.perm_insertBehind (order : α → α → Ordering) (item : α) (items : List α) :
    (insertBehind order item items).Perm (item :: items) := by
  induction items with
  | nil => exact .refl _
  | cons queued rest ih =>
    simp only [insertBehind]
    split
    · exact .refl _
    · exact (ih.cons queued).trans (.swap item queued rest)

namespace Gate

structure Distinct (g : Gate) : Prop where
  line : g.pending.Nodup
  apart : ∀ {k}, g.holder = some k → k ∉ g.pending

variable {order : Entry → Entry → Ordering} {g g' : Gate} {e : Entry} {k p : PromotionKey}
  {taken : List PromotionKey}

theorem distinct_empty : ({} : Gate).Distinct := ⟨List.nodup_nil, fun h => by cases h⟩

-- ---------------------------------------------------------------------------
-- What leaves the line
-- ---------------------------------------------------------------------------

/-- A gate that lost some promotions of its line, and perhaps its holder. -/
structure Lost (g : Gate) (taken : List PromotionKey) (g' : Gate) : Prop where
  line : g.pending.Perm (taken ++ g'.pending)
  rest : g'.waiting.items.Sublist g.waiting.items
  holder : ∀ {k}, g'.holder = some k → g.holder = some k

theorem Lost.stands (hl : g.Lost taken g') (hs : g'.Stands k) : g.Stands k := by
  rcases hs with hs | hs
  · exact .inl (hl.holder hs)
  · exact .inr (hl.line.mem_iff.mpr (List.mem_append_right _ hs))

namespace Distinct

theorem lost (h : g.Distinct) (hl : g.Lost taken g') : g'.Distinct where
  line := (List.nodup_append.mp (hl.line.nodup_iff.mp h.line)).2.1
  apart hk hm := h.apart (hl.holder hk) (hl.line.mem_iff.mpr (List.mem_append_right _ hm))

theorem stands_rest (h : g.Distinct) (hl : g.Lost taken g') (holder : g'.holder = g.holder) :
    g'.Stands k ↔ g.Stands k ∧ k ∉ taken := by
  have hnodup := List.nodup_append.mp (hl.line.nodup_iff.mp h.line)
  constructor
  · intro hs
    refine ⟨hl.stands hs, fun ht => ?_⟩
    rcases hs with hk | hk
    · exact h.apart (hl.holder hk) (hl.line.mem_iff.mpr (List.mem_append_left _ ht))
    · exact hnodup.2.2 k ht k hk rfl
  · rintro ⟨hk | hk, ht⟩
    · exact .inl (holder.trans hk)
    · exact .inr ((List.mem_append.mp (hl.line.mem_iff.mp hk)).resolve_left ht)

end Distinct

theorem pop_lost (g : Gate) : g.Lost g.pop.1.toList g.pop.2 where
  line := by
    unfold pop pending
    cases hi : g.waiting.items with
    | nil => simp [Backlog.pop, hi]
    | cons head rest => simp [Backlog.pop, hi]
  rest := List.tail_sublist _
  holder := id

theorem remove_lost (g : Gate) (p : PromotionKey) :
    g.Lost (if (g.remove p).1 then [p] else []) (g.remove p).2 where
  line := by
    cases hf : g.waiting.items.find? (fun e => e.key == p) with
    | none =>
      have hnone : ∀ e ∈ g.waiting.items, ¬ (e.key == p) = true := List.find?_eq_none.mp hf
      simp [remove, Backlog.removeFirst, pending, hf, List.eraseP_of_forall_not hnone]
    | some e =>
      have hkey : e.key = p := by simpa using List.find?_some hf
      obtain ⟨x, front, rest, -, hx, hitems, herase⟩ :=
        List.exists_of_eraseP (p := fun y : Entry => y.key == p) (List.mem_of_find?_eq_some hf)
          (by simpa using hkey)
      have hx : x.key = p := by simpa using hx
      have hline : (g.remove p).2.waiting.items = front ++ rest := herase
      have hfound : (g.remove p).1 = true := by simp [remove, Backlog.removeFirst, hf]
      simp only [hfound, if_true, pending, hline, hitems, List.map_append, List.map_cons, hx]
      exact List.perm_middle
  rest := List.eraseP_sublist
  holder := id

theorem conclude_lost (g : Gate) (p : PromotionKey) : g.Lost [] (g.conclude p).2 := by
  by_cases h : g.holder = some p
  · rw [conclude_of_holder h]
    exact ⟨.refl _, .refl _, fun hk => by cases hk⟩
  · rw [conclude_of_not_holder h]
    exact ⟨.refl _, .refl _, id⟩

-- ---------------------------------------------------------------------------
-- Who stands at the gate after an operation
-- ---------------------------------------------------------------------------

theorem pop_stands (h : g.Distinct) : g.pop.2.Stands k ↔ g.Stands k ∧ g.pop.1 ≠ some k := by
  rw [h.stands_rest (pop_lost g) rfl, Option.mem_toList]

theorem remove_stands (h : g.Distinct) :
    (g.remove p).2.Stands k ↔ g.Stands k ∧ ¬ ((g.remove p).1 = true ∧ k = p) := by
  rw [h.stands_rest (remove_lost g p) rfl]
  cases (g.remove p).1 <;> simp

theorem conclude_stands (h : g.Distinct) :
    (g.conclude p).2.Stands k ↔ g.Stands k ∧ ¬ ((g.conclude p).1 = true ∧ k = p) := by
  by_cases hh : g.holder = some p
  · have hline : k ∈ g.pending → k ≠ p := fun hk hp => h.apart hh (hp ▸ hk)
    rw [conclude_of_holder hh]
    simp only [Stands, hh, reduceCtorEq, false_or, Option.some.injEq, true_and]
    constructor
    · exact fun hk => ⟨.inr hk, hline hk⟩
    · rintro ⟨hs, hne⟩
      exact hs.resolve_left fun e => hne e.symm
  · rw [conclude_of_not_holder hh]
    simp

-- ---------------------------------------------------------------------------
-- Arrivals
-- ---------------------------------------------------------------------------

namespace Distinct

theorem push (h : g.Distinct) (hk : g.holder ≠ some e.key) : (g.push order e).Distinct := by
  unfold Gate.push Backlog.push
  split
  · exact h
  · next hc =>
    have hnew : e.key ∉ g.pending := fun hm => hc (contains_iff.mpr hm)
    have hperm := (Backlog.perm_insertBehind order e g.waiting.items).map Entry.key
    have hmem : ∀ j, j ∈ (Backlog.insertBehind order e g.waiting.items).map Entry.key ↔
        j = e.key ∨ j ∈ g.pending := fun j => hperm.mem_iff.trans (by simp [pending])
    refine ⟨hperm.nodup_iff.mpr (List.nodup_cons.mpr ⟨hnew, h.line⟩), fun {j} hj hm => ?_⟩
    rcases (hmem j).mp hm with rfl | hm
    · exact hk hj
    · exact h.apart hj hm

theorem hold (h : g.Distinct) (hk : k ∉ g.pending) :
    ({ g with holder := some k } : Gate).Distinct :=
  ⟨h.line, fun hj => by cases hj; exact hk⟩

theorem enroll (h : g.Distinct) : (g.enroll order e).2.Distinct := by
  cases hh : g.holder with
  | none =>
    rw [enroll_of_idle hh]
    -- An arrival at an idle stage leaves the line as a removal does.
    have hout := fun j => remove_stands (p := e.key) (k := j) h
    have hrest : (g.remove e.key).2.Distinct := h.lost (remove_lost g e.key)
    refine hold hrest fun hm => ?_
    obtain ⟨hs, hne⟩ := (hout e.key).mp (.inr hm)
    refine hne ⟨?_, rfl⟩
    rcases hs with hs | hs
    · rw [hh] at hs; cases hs
    · obtain ⟨x, hx, hxk⟩ := mem_pending.mp hs
      have : (g.waiting.items.find? fun y => y.key == e.key).isSome :=
        List.find?_isSome.mpr ⟨x, hx, by simpa using hxk⟩
      exact this
  | some holder =>
    by_cases hk : holder = e.key
    · subst hk
      rwa [enroll_of_holder hh]
    · rw [enroll_of_other hh hk]
      exact h.push (by rw [hh]; exact fun he => hk (Option.some.inj he))

theorem claim (h : g.Distinct) : (g.claim order e).2.Distinct := by
  cases hh : g.holder with
  | some holder =>
    by_cases hk : holder = e.key
    · simpa [Gate.claim, hh, hk] using h
    · have hpush : (g.claim order e).2 = g.push order e := by simp [Gate.claim, hh, hk]
      rw [hpush]
      exact h.push (by rw [hh]; exact fun he => hk (Option.some.inj he))
  | none =>
    cases hp : g.waiting.peek? with
    | none =>
      have hclaim : (g.claim order e).2 = { g with holder := some e.key } := by
        simp [Gate.claim, hh, hp]
      have hempty : g.waiting.items = [] := List.head?_eq_none_iff.mp hp
      rw [hclaim]
      exact h.hold (by simp [pending, hempty])
    | some head =>
      by_cases hk : head.key = e.key
      · have hclaim : (g.claim order e).2 = { g.pop.2 with holder := some e.key } := by
          simp [Gate.claim, Gate.pop, hh, hp, hk]
        have hfirst : g.pop.1 = some e.key := by
          rw [← hk]; exact congrArg (Option.map Entry.key) hp
        rw [hclaim]
        refine (h.lost (pop_lost g)).hold fun hm => ?_
        exact ((pop_stands h).mp (.inr hm)).2 hfirst
      · have hpush : (g.claim order e).2 = g.push order e := by simp [Gate.claim, hh, hp, hk]
        rw [hpush]
        exact h.push (by simp [hh])

end Distinct

-- ---------------------------------------------------------------------------
-- Properties that every operation keeps
-- ---------------------------------------------------------------------------

/-- A property of gates that arrivals and claims keep, and that a gate does not lose with what it
loses. -/
structure Kept (order : Entry → Entry → Ordering) (I : Gate → Prop) : Prop where
  enroll : ∀ {g e}, I g → I (g.enroll order e).2
  claim : ∀ {g e}, I g → I (g.claim order e).2
  lost : ∀ {g taken g'}, I g → g.Lost taken g' → I g'

theorem kept_distinct (order : Entry → Entry → Ordering) : Kept order Distinct :=
  ⟨Distinct.enroll, Distinct.claim, Distinct.lost⟩

end Gate

end StageGate
