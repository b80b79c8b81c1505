import StageGate.Proofs.Gates.Census
import StageGate.Proofs.Gates.Tables

/-!
# Each stage by itself

A call is about one stage. What it answers depends on the gate of that stage alone, and that gate is
all it works on, so whatever goes on at other stages can be left out without anybody at this one
noticing. Main statement: `stages_apart`. The calls about a stage, run by themselves, get the
answers that they get among all the others, and leave the stage as it is among them.
-/

namespace StageGate.Gates

def Call.stage : Call → StageKey
  | .enroll stage _ | .conclude stage _ | .claim stage _ | .peek stage | .pop stage
  | .remove stage _ => stage
  | .select stage _ _ => stage

def callsAt (stage : StageKey) (calls : List Call) : List Call := calls.filter (·.stage = stage)

def recordsAt (stage : StageKey) (records : List Record) : List Record :=
  records.filter (·.call.stage = stage)

/-- Gates that cannot be told apart at a stage: both know it or neither does, and who holds it and
who waits there is the same. -/
structure AlikeAt (stage : StageKey) (gs gs' : Gates) : Prop where
  order : gs.order = gs'.order
  gate? : gs.gate? stage = gs'.gate? stage

variable {gs gs' : Gates} {stage : StageKey}

namespace AlikeAt

theorem gate (h : AlikeAt stage gs gs') : gs.gate stage = gs'.gate stage := by
  rw [Gates.gate, h.gate?, ← Gates.gate]

theorem trans {gs'' : Gates} (h : AlikeAt stage gs gs') (h' : AlikeAt stage gs' gs'') :
    AlikeAt stage gs gs'' := ⟨h.order.trans h'.order, h.gate?.trans h'.gate?⟩

theorem set (h : AlikeAt stage gs gs') (g : Gate) :
    AlikeAt stage (gs.set stage g) (gs'.set stage g) :=
  ⟨h.order, by simp [gate?_set]⟩

theorem set_elsewhere (gs : Gates) {other : StageKey} (hne : other ≠ stage) (g : Gate) :
    AlikeAt stage (gs.set other g) gs :=
  ⟨rfl, by rw [gate?_set, if_neg hne.symm]⟩

-- ---------------------------------------------------------------------------
-- One call
-- ---------------------------------------------------------------------------

theorem onKnown {α : Type} (h : AlikeAt stage gs gs') (absent : α) (act : Gate → α × Gate) :
    (gs.onKnown stage absent act).1 = (gs'.onKnown stage absent act).1 ∧
      AlikeAt stage (gs.onKnown stage absent act).2 (gs'.onKnown stage absent act).2 := by
  unfold Gates.onKnown
  rw [h.gate?]
  cases gs'.gate? stage with
  | some g => exact ⟨rfl, h.set _⟩
  | none => exact ⟨rfl, h⟩

theorem onKnown_elsewhere {α : Type} (gs : Gates) {other : StageKey} (hne : other ≠ stage)
    (absent : α) (act : Gate → α × Gate) :
    AlikeAt stage (gs.onKnown other absent act).2 gs := by
  unfold Gates.onKnown
  split
  · exact set_elsewhere gs hne _
  · exact ⟨rfl, rfl⟩

theorem perform {c : Call} (h : AlikeAt c.stage gs gs') :
    (gs.perform c).1 = (gs'.perform c).1 ∧ AlikeAt c.stage (gs.perform c).2 (gs'.perform c).2 := by
  cases c with
  | enroll s e =>
    simp only [Call.stage] at h
    simp only [Gates.perform, Gates.enroll, h.gate, h.order, true_and]
    exact h.set _
  | claim s e =>
    simp only [Call.stage] at h
    simp only [Gates.perform, Gates.claim, h.gate, h.order, true_and]
    exact h.set _
  | select s check start =>
    simp only [Call.stage] at h
    simp only [Gates.perform, Gates.select, h.gate?]
    cases gs'.gate? s with
    | some g => exact ⟨rfl, h.set _⟩
    | none => exact ⟨rfl, h⟩
  | peek s => exact ⟨congrArg (fun g : Gate => Reply.key g.peek?) h.gate, h⟩
  | conclude s key => exact (h.onKnown false (·.conclude key)).imp_left (congrArg Reply.flag)
  | pop s => exact (h.onKnown none Gate.pop).imp_left (congrArg Reply.key)
  | remove s key => exact (h.onKnown false (·.remove key)).imp_left (congrArg Reply.flag)

theorem perform_elsewhere (gs : Gates) {c : Call} (hne : c.stage ≠ stage) :
    AlikeAt stage (gs.perform c).2 gs := by
  cases c with
  | enroll s e => exact set_elsewhere gs hne _
  | claim s e => exact set_elsewhere gs hne _
  | select s check start =>
    simp only [Gates.perform, Gates.select]
    cases gs.gate? s with
    | some g => exact set_elsewhere gs hne _
    | none => exact ⟨rfl, rfl⟩
  | peek s => exact ⟨rfl, rfl⟩
  | conclude s key => exact onKnown_elsewhere gs hne false (·.conclude key)
  | pop s => exact onKnown_elsewhere gs hne none Gate.pop
  | remove s key => exact onKnown_elsewhere gs hne false (·.remove key)

-- ---------------------------------------------------------------------------
-- Sequences of calls
-- ---------------------------------------------------------------------------

/-- A run beside the run of those of its calls that are about a stage, from gates that are alike
there: the other calls change nothing that shows at the stage. -/
theorem after (h : AlikeAt stage gs gs') (calls : List Call) :
    recordsAt stage (gs.history calls) = gs'.history (callsAt stage calls) ∧
      AlikeAt stage (gs.after calls) (gs'.after (callsAt stage calls)) := by
  induction calls generalizing gs gs' with
  | nil => exact ⟨rfl, h⟩
  | cons c calls ih =>
    by_cases hc : c.stage = stage
    · subst hc
      obtain ⟨hreply, hnext⟩ := h.perform
      obtain ⟨hrecords, hend⟩ := ih hnext
      simp only [callsAt, recordsAt, history, decide_true, List.filter_cons_of_pos] at hrecords ⊢
      exact ⟨by rw [hrecords, hreply], hend⟩
    · obtain ⟨hrecords, hend⟩ := ih ((perform_elsewhere gs hc).trans h)
      simp only [callsAt, recordsAt, history, hc, decide_false, Bool.false_eq_true,
        not_false_eq_true, List.filter_cons_of_neg] at hrecords hend ⊢
      exact ⟨hrecords, hend⟩

end AlikeAt

/-- From gates, or tables, at which nobody stands, under any order and for any calls about any
stages: the calls about one stage get the replies that they get when they are run by themselves, and
at the end the stage is as it is after these alone. Both know it or neither does, and it has the
same holder and the same line. -/
theorem stages_apart (order : Entry → Entry → Ordering) (calls : List Call) (stage : StageKey) :
    let own := callsAt stage calls
    recordsAt stage (({ order } : Gates).history calls) = ({ order } : Gates).history own ∧
    (({ order } : Gates).after calls).active? stage = (({ order } : Gates).after own).active? stage ∧
    (({ order } : Gates).after calls).pending stage = (({ order } : Gates).after own).pending stage ∧
    (({ order } : Gates).after calls).gate? stage = (({ order } : Gates).after own).gate? stage ∧
    recordsAt stage (({ order } : Tables).history calls) = ({ order } : Tables).history own ∧
    (({ order } : Tables).after calls).holders.get? stage =
      (({ order } : Tables).after own).holders.get? stage ∧
    (({ order } : Tables).after calls).lines.get? stage =
      (({ order } : Tables).after own).lines.get? stage := by
  intro own
  have hlays := Tables.lays_start order
  have hstart : AlikeAt stage ({ order } : Gates) { order } := ⟨rfl, rfl⟩
  obtain ⟨hrecords, hend⟩ := hstart.after calls
  refine ⟨hrecords, congrArg Gate.holder hend.gate, congrArg Gate.pending hend.gate, hend.gate?,
    ?_, ?_, ?_⟩
  · rw [hlays.history, hlays.history]
    exact hrecords
  · rw [(hlays.after calls).holder, (hlays.after own).holder, hend.gate]
  · rw [(hlays.after calls).lines, (hlays.after own).lines, hend.gate?]

end StageGate.Gates
