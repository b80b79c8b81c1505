import StageGate.Proofs.Gates.Census
import StageGate.Proofs.Gates.Tables

/-!
# Lines in order, stages in order

A line never falls by the order of its gates. Two entries that the order does not tell apart would
have one key, and no key stands twice in a line, so by age and key the line even rises. Main
statement: `well_ordered`. After any calls from the start every line rises strictly and does not hold
the holder, every holder's stage has a line, and the stages that are known, in order, are those that
promotions have come to.
-/

namespace StageGate

instance : Std.TransCmp Entry.oldestFirst :=
  inferInstanceAs (Std.TransCmp (compareLex (compareOn Entry.created) (compareOn Entry.key)))

theorem Entry.key_eq_of_oldestFirst {a b : Entry} (h : oldestFirst a b = .eq) : a.key = b.key := by
  unfold oldestFirst at h
  rw [compareLex_eq_eq] at h
  exact Std.LawfulEqOrd.eq_of_compare h.2

namespace Gate

variable {order : Entry → Entry → Ordering} {g g' : Gate} {e : Entry}

def InOrder (order : Entry → Entry → Ordering) (g : Gate) : Prop :=
  g.waiting.items.Pairwise fun a b => order a b ≠ .gt

theorem InOrder.sublist (h : g.InOrder order)
    (hs : g'.waiting.items.Sublist g.waiting.items) : g'.InOrder order :=
  List.Pairwise.sublist hs h

theorem InOrder.push [Std.TransCmp order] (h : g.InOrder order) :
    (g.push order e).InOrder order := by
  have total (x y : Entry) : order x y = (order y x).swap := Std.OrientedCmp.eq_swap
  have trans (x y z : Entry) (hxy : order x y ≠ .gt) (hyz : order y z ≠ .gt) :
      order x z ≠ .gt := by
    rw [ne_eq, Ordering.ne_gt_iff_isLE] at *
    exact Std.TransCmp.isLE_trans hxy hyz
  exact Backlog.sorted_push (d := Entry.discipline order) total trans h e

theorem kept_inOrder (order : Entry → Entry → Ordering) [Std.TransCmp order] :
    Kept order (InOrder order) where
  lost h hl := h.sublist hl.rest
  enroll {g e} h := by
    cases hh : g.holder with
    | none =>
      rw [enroll_of_idle hh]
      exact h.sublist List.eraseP_sublist
    | some holder =>
      by_cases hk : holder = e.key
      · subst hk
        rwa [enroll_of_holder hh]
      · rw [enroll_of_other hh hk]
        exact h.push
  claim {g e} h := by
    unfold Gate.claim
    split
    · split
      · exact h
      · exact h.push
    · split
      · exact h
      · split
        · exact h.sublist (List.tail_sublist _)
        · exact h.push

theorem rising (hd : g.Distinct) (ho : g.InOrder Entry.oldestFirst) :
    g.waiting.items.Pairwise fun a b => Entry.oldestFirst a b = .lt := by
  have hkeys : g.waiting.items.Pairwise fun a b => a.key ≠ b.key := List.pairwise_map.mp hd.line
  refine (hkeys.and ho).imp ?_
  rintro a b ⟨hne, hle⟩
  cases hab : Entry.oldestFirst a b with
  | lt => rfl
  | eq => exact absurd (Entry.key_eq_of_oldestFirst hab) hne
  | gt => exact absurd hab hle

end Gate

namespace Gates

variable {gs : Gates} {stage : StageKey}

-- ---------------------------------------------------------------------------
-- The stages that are known
-- ---------------------------------------------------------------------------

theorem mem_stages_set {other : StageKey} (g : Gate) :
    stage ∈ (gs.set other g).stages ↔ stage = other ∨ stage ∈ gs.stages := by
  simp only [mem_stages_iff, gate?, set, SortedMap.get?_insert, Std.LawfulEqOrd.compare_eq_iff_eq]
  split
  · next ho => simp [ho]
  · next ho => simp [ho]

theorem mem_stages_perform (gs : Gates) (c : Call) : stage ∈ (gs.perform c).2.stages ↔
    (∃ key, c.comer? = some (stage, key)) ∨ stage ∈ gs.stages := by
  have known {s : StageKey} {g : Gate} (hg : gs.gate? s = some g) (g' : Gate) :
      stage ∈ (gs.set s g').stages ↔ stage ∈ gs.stages := by
    rw [mem_stages_set, or_iff_right_of_imp]
    rintro rfl
    simp [mem_stages_iff, hg]
  have onKnown {α : Type} {s : StageKey} {absent : α} {act : Gate → α × Gate} :
      stage ∈ (gs.onKnown s absent act).2.stages ↔ stage ∈ gs.stages := by
    unfold Gates.onKnown
    split
    · next g hg => exact known hg _
    · rfl
  have nobody {c : Call} {gs' : Gates} (hc : c.comer? = none)
      (h : stage ∈ gs'.stages ↔ stage ∈ gs.stages) :
      stage ∈ gs'.stages ↔ (∃ key, c.comer? = some (stage, key)) ∨ stage ∈ gs.stages := by
    simpa [hc] using h
  cases c with
  | enroll s e =>
    show stage ∈ (gs.set s _).stages ↔ _
    simp [mem_stages_set, Call.comer?, eq_comm]
  | claim s e =>
    show stage ∈ (gs.set s _).stages ↔ _
    simp [mem_stages_set, Call.comer?, eq_comm]
  | conclude s key => exact nobody rfl onKnown
  | select s check start =>
    show stage ∈ ((gs.select check s).run start).1.2.stages ↔ _
    refine nobody rfl ?_
    unfold Gates.select
    split
    · rfl
    · next g hg => exact known hg _
  | peek s => exact nobody rfl .rfl
  | pop s => exact nobody rfl onKnown
  | remove s key => exact nobody rfl onKnown

theorem mem_stages_after (gs : Gates) (calls : List Call) : stage ∈ (gs.after calls).stages ↔
    (∃ c ∈ calls, ∃ key, c.comer? = some (stage, key)) ∨ stage ∈ gs.stages := by
  induction calls generalizing gs with
  | nil => simp [after]
  | cons c calls ih =>
    show stage ∈ ((gs.perform c).2.after calls).stages ↔ _
    rw [ih, mem_stages_perform, List.exists_mem_cons_iff]
    exact or_left_comm.trans or_assoc.symm

/-- Gates and tables that start empty, with the oldest promotion first, after any calls. No promotion
stands twice in a line or waits where it holds, every line rises strictly, and a stage with a holder
has a line. Both know, in strict order and without repetition, the stages that a promotion was ever
admitted to or claimed. -/
theorem well_ordered (calls : List Call) :
    let gs := ({} : Gates).after calls
    let tables := ({} : Tables).after calls
    tables.Lays gs ∧ ({} : Tables).history calls = ({} : Gates).history calls ∧
    (∀ stage, (gs.pending stage).Nodup ∧
      (gs.gate stage).waiting.items.Pairwise (fun a b => Entry.oldestFirst a b = .lt) ∧
      ∀ key, gs.active? stage = some key →
        key ∉ gs.pending stage ∧ (tables.lines.get? stage).isSome) ∧
    tables.stages = gs.stages ∧ gs.stages.Pairwise (fun a b => compare a b = .lt) ∧
    ∀ stage, stage ∈ gs.stages ↔ ∃ c ∈ calls, ∃ key, c.comer? = some (stage, key) := by
  intro gs tables
  have hlays : tables.Lays gs := (Tables.lays_start Entry.oldestFirst).after calls
  have hdistinct : gs.Distinct := (distinct_start Entry.oldestFirst).after calls
  have horder (stage : StageKey) : (gs.gate stage).InOrder Entry.oldestFirst :=
    forall_gate_after (Gate.kept_inOrder Entry.oldestFirst) (fun _ => List.Pairwise.nil) calls stage
  refine ⟨hlays, (Tables.lays_start Entry.oldestFirst).history calls, fun stage => ?_,
    hlays.stages, gs.byStage.sorted_keys, fun stage => ?_⟩
  · refine ⟨(hdistinct stage).line, Gate.rising (hdistinct stage) (horder stage), ?_⟩
    intro key hkey
    exact ⟨(hdistinct stage).apart hkey, hlays.line_of_holder ((hlays.holder stage).trans hkey)⟩
  · have hstart : stage ∉ ({} : Gates).stages := List.not_mem_nil
    rw [mem_stages_after, or_iff_left hstart]

end Gates

end StageGate
