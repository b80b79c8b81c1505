import Mathlib.Data.List.Induction
import StageGate.Proofs.Gates.Calls
import StageGate.Proofs.Gates.Selection

/-!
# Nobody is lost and nobody is invented

A promotion comes to a stage by an arrival or by a claim, whatever these answer, and it goes by a
conclusion that frees the stage, by being popped or removed from the line, or by being found stale.
Main statement: `stands_after_iff`. After any calls, the promotions at a stage are those that came
and have not gone since they last came.
-/

namespace StageGate.Gates

def Call.comer? : Call → Option (StageKey × PromotionKey)
  | .enroll stage e => some (stage, e.key)
  | .claim stage e => some (stage, e.key)
  | _ => none

/-- The ways in which a promotion goes from a stage by a call on these gates. -/
inductive Goes (gs : Gates) (stage : StageKey) (p : PromotionKey) : Call → Prop where
  | concluded (done : (gs.conclude stage p).1 = true) : Goes gs stage p (.conclude stage p)
  | popped (first : (gs.pop stage).1 = some p) : Goes gs stage p (.pop stage)
  | removed (found : (gs.remove stage p).1 = true) : Goes gs stage p (.remove stage p)
  | stale {σ ε : Type} (check : PromotionKey → StateM σ (Except ε Verdict)) (start : σ)
      (found : gs.FindsStale check stage start p) : Goes gs stage p (.select stage check start)

def Distinct (gs : Gates) : Prop := ∀ stage, (gs.gate stage).Distinct

variable {gs : Gates} {stage : StageKey} {p : PromotionKey}

theorem distinct_start (order : Entry → Entry → Ordering) : ({ order } : Gates).Distinct :=
  fun _ => Gate.distinct_empty

theorem pop_fst (gs : Gates) (stage : StageKey) : (gs.pop stage).1 = (gs.gate stage).pop.1 :=
  onKnown_fst none Gate.pop rfl

theorem remove_fst (gs : Gates) (stage : StageKey) (p : PromotionKey) :
    (gs.remove stage p).1 = ((gs.gate stage).remove p).1 :=
  onKnown_fst false (·.remove p) rfl

-- ---------------------------------------------------------------------------
-- One call
-- ---------------------------------------------------------------------------

theorem order_perform (gs : Gates) (c : Call) : (gs.perform c).2.order = gs.order := by
  have known {α : Type} {stage : StageKey} {absent : α} {act : Gate → α × Gate} :
      (gs.onKnown stage absent act).2.order = gs.order := by
    unfold onKnown
    split <;> rfl
  cases c with
  | enroll s e => rfl
  | claim s e => rfl
  | conclude s key => exact known
  | select s check start =>
    show ((gs.select check s).run start).1.2.order = gs.order
    unfold select
    split <;> rfl
  | peek s => rfl
  | pop s => exact known
  | remove s key => exact known

theorem forall_gate_perform {I : Gate → Prop} (kept : Gate.Kept gs.order I)
    (h : ∀ stage, I (gs.gate stage)) (c : Call) (stage : StageKey) :
    I ((gs.perform c).2.gate stage) := by
  -- A call acts at one gate at most, so it is enough to look at that one.
  have at_gate {gs' : Gates} {s : StageKey} {g : Gate} (hg : I g)
      (hgate : ∀ other, gs'.gate other = if other = s then g else gs.gate other) :
      I (gs'.gate stage) := by
    rw [hgate]
    split
    · exact hg
    · exact h stage
  cases c with
  | enroll s e => exact at_gate (kept.enroll (h s)) fun _ => gate_enroll e
  | claim s e => exact at_gate (kept.claim (h s)) fun _ => gate_claim e
  | conclude s key =>
    exact at_gate (kept.lost (h s) (Gate.conclude_lost _ key)) fun _ => gate_conclude key
  | select s check start =>
    obtain ⟨passed, hlost, -⟩ := Gate.select_lost check (gs.gate s) start
    exact at_gate (kept.lost (h s) hlost) fun _ => gate_select start
  | peek s => exact h stage
  | pop s => exact at_gate (kept.lost (h s) (Gate.pop_lost _)) fun _ => gate_pop
  | remove s key =>
    exact at_gate (kept.lost (h s) (Gate.remove_lost _ key)) fun _ => gate_remove key

theorem forall_gate_after {I : Gate → Prop} (kept : Gate.Kept gs.order I)
    (h : ∀ stage, I (gs.gate stage)) (calls : List Call) (stage : StageKey) :
    I ((gs.after calls).gate stage) := by
  induction calls generalizing gs with
  | nil => exact h stage
  | cons c calls ih =>
    refine ih ?_ (forall_gate_perform kept h c)
    rwa [order_perform]

theorem Distinct.after (h : gs.Distinct) (calls : List Call) : (gs.after calls).Distinct :=
  forall_gate_after (Gate.kept_distinct gs.order) h calls

theorem goes_conclude {s : StageKey} {key : PromotionKey} :
    Goes gs stage p (.conclude s key) ↔
      stage = s ∧ ((gs.gate stage).conclude key).1 = true ∧ p = key := by
  rw [← conclude_fst]
  constructor
  · rintro ⟨done⟩
    exact ⟨rfl, done, rfl⟩
  · rintro ⟨rfl, done, rfl⟩
    exact .concluded done

theorem goes_pop {s : StageKey} :
    Goes gs stage p (.pop s) ↔ stage = s ∧ (gs.gate stage).pop.1 = some p := by
  rw [← pop_fst]
  constructor
  · intro h
    cases h with
    | popped first => exact ⟨rfl, first⟩
  · rintro ⟨rfl, first⟩
    exact .popped first

theorem goes_remove {s : StageKey} {key : PromotionKey} :
    Goes gs stage p (.remove s key) ↔
      stage = s ∧ ((gs.gate stage).remove key).1 = true ∧ p = key := by
  rw [← remove_fst]
  constructor
  · intro h
    cases h with
    | removed found => exact ⟨rfl, found, rfl⟩
  · rintro ⟨rfl, found, rfl⟩
    exact .removed found

theorem goes_select {s : StageKey} {σ ε : Type}
    {check : PromotionKey → StateM σ (Except ε Verdict)} {start : σ} :
    Goes gs stage p (.select s check start) ↔
      stage = s ∧ (gs.gate stage).FindsStale check start p := by
  rw [← findsStale_iff]
  constructor
  · intro h
    cases h with
    | stale _ _ found => exact ⟨rfl, found⟩
  · rintro ⟨rfl, found⟩
    exact .stale check start found

theorem stands_perform (h : gs.Distinct) (c : Call) : ((gs.perform c).2.gate stage).Stands p ↔
    c.comer? = some (stage, p) ∨ (gs.gate stage).Stands p ∧ ¬ Goes gs stage p c := by
  -- A promotion that comes does not go by the same call.
  have arrival {g : Gate} {s : StageKey} {e : Entry} {c : Call} (goes : ¬ Goes gs stage p c)
      (hg : g.Stands p ↔ p = e.key ∨ (gs.gate s).Stands p) :
      (if stage = s then g else gs.gate stage).Stands p ↔
        some (s, e.key) = some (stage, p) ∨ (gs.gate stage).Stands p ∧ ¬ Goes gs stage p c := by
    by_cases hs : stage = s
    · subst hs
      rw [if_pos rfl, hg]
      simp [goes, eq_comm]
    · rw [if_neg hs]
      simp [goes, Ne.symm hs]
  cases c with
  | enroll s e =>
    show ((gs.enroll s e).2.gate stage).Stands p ↔ _
    rw [gate_enroll]
    exact arrival (fun hg => by cases hg) Gate.stands_enroll
  | claim s e =>
    show ((gs.claim s e).2.gate stage).Stands p ↔ _
    rw [gate_claim]
    exact arrival (fun hg => by cases hg) Gate.stands_claim
  | conclude s key =>
    show ((gs.conclude s key).2.gate stage).Stands p ↔ _
    rw [gate_conclude, goes_conclude]
    split
    · next hs =>
      subst hs
      simp [Gate.conclude_stands (h stage), Call.comer?]
    · next hs => simp [Call.comer?, hs]
  | select s check start =>
    show (((gs.select check s).run start).1.2.gate stage).Stands p ↔ _
    rw [gate_select, goes_select]
    split
    · next hs =>
      subst hs
      simp [Gate.select_stands (h stage), Call.comer?]
    · next hs => simp [Call.comer?, hs]
  | peek s =>
    have goes : ¬ Goes gs stage p (.peek s) := fun hg => by cases hg
    simp [perform, Call.comer?, goes]
  | pop s =>
    show ((gs.pop s).2.gate stage).Stands p ↔ _
    rw [gate_pop, goes_pop]
    split
    · next hs =>
      subst hs
      simp [Gate.pop_stands (h stage), Call.comer?]
    · next hs => simp [Call.comer?, hs]
  | remove s key =>
    show ((gs.remove s key).2.gate stage).Stands p ↔ _
    rw [gate_remove, goes_remove]
    split
    · next hs =>
      subst hs
      simp [Gate.remove_stands (h stage), Call.comer?]
    · next hs => simp [Call.comer?, hs]

-- ---------------------------------------------------------------------------
-- Sequences of calls
-- ---------------------------------------------------------------------------

/-- Some call brought the promotion to the stage, it was the last one that did, and by none of the
calls since then has the promotion gone. -/
def Stays (gs : Gates) (stage : StageKey) (p : PromotionKey) (calls : List Call) : Prop :=
  ∃ before coming since, calls = before ++ coming :: since ∧ coming.comer? = some (stage, p) ∧
    (∀ c ∈ since, c.comer? ≠ some (stage, p)) ∧
    ∀ between c rest, since = between ++ c :: rest →
      ¬ Goes (gs.after (before ++ coming :: between)) stage p c

theorem stays_concat {calls : List Call} {c : Call} : gs.Stays stage p (calls ++ [c]) ↔
    c.comer? = some (stage, p) ∨ gs.Stays stage p calls ∧ ¬ Goes (gs.after calls) stage p c := by
  constructor
  · rintro ⟨before, coming, since, h, hc, hlast, hgoes⟩
    rcases List.eq_nil_or_concat since with rfl | ⟨since, last, rfl⟩
    · obtain ⟨-, h⟩ := List.append_inj' h rfl
      exact .inl ((List.cons.inj h).1 ▸ hc)
    · have hl : calls ++ [c] = (before ++ coming :: since) ++ [last] := by simpa using h
      obtain ⟨rfl, hd⟩ := List.append_inj' hl rfl
      obtain ⟨rfl, -⟩ := List.cons.inj hd
      refine .inr ⟨⟨before, coming, since, rfl, hc, fun d hd => hlast d (by simp [hd]), ?_⟩,
        hgoes since c [] (by simp)⟩
      rintro between d rest rfl
      exact hgoes between d (rest ++ [c]) (by simp)
  · rintro (hc | ⟨⟨before, coming, since, rfl, hc, hlast, hgoes⟩, hstays⟩)
    · refine ⟨calls, c, [], rfl, hc, by simp, ?_⟩
      intro between d rest h
      simp at h
    · by_cases hcome : c.comer? = some (stage, p)
      · refine ⟨before ++ coming :: since, c, [], rfl, hcome, by simp, ?_⟩
        intro between d rest h
        simp at h
      · refine ⟨before, coming, since ++ [c], by simp, hc, fun d hd => ?_, ?_⟩
        · rcases List.mem_append.mp hd with hd | hd
          · exact hlast d hd
          · rw [List.mem_singleton.mp hd]; exact hcome
        · intro between d rest h
          rcases List.eq_nil_or_concat rest with rfl | ⟨rest, last, rfl⟩
          · obtain ⟨rfl, hd⟩ := List.append_inj' h rfl
            exact (List.cons.inj hd).1 ▸ hstays
          · have hl : since ++ [c] = (between ++ d :: rest) ++ [last] := by simpa using h
            obtain ⟨hl, -⟩ := List.append_inj' hl rfl
            exact hgoes between d rest hl

theorem stands_iff_stays (h : gs.Distinct) (idle : ¬ (gs.gate stage).Stands p)
    (calls : List Call) : ((gs.after calls).gate stage).Stands p ↔ gs.Stays stage p calls := by
  induction calls using List.reverseRecOn with
  | nil =>
    refine ⟨fun hs => absurd hs idle, ?_⟩
    rintro ⟨before, coming, since, hnil, -⟩
    simp at hnil
  | append_singleton calls c ih =>
    rw [after_concat, stands_perform (h.after calls), stays_concat, ih]

/-- From gates at which nobody stands, under any order and after any sequence of calls: a promotion
holds a stage or waits in its line exactly if it came to the stage by some call and has not gone by
any call since it last came. -/
theorem stands_after_iff (order : Entry → Entry → Ordering) (calls : List Call) (stage : StageKey)
    (p : PromotionKey) :
    (({ order } : Gates).after calls).active? stage = some p ∨
        p ∈ (({ order } : Gates).after calls).pending stage ↔
      ({ order } : Gates).Stays stage p calls :=
  stands_iff_stays (distinct_start order) Gate.not_stands_empty calls

end StageGate.Gates
