import StageGate.Proofs.Gates.Apart

/-!
# What a selection does, in full

Main statement: `asked_from_front`. In any state that calls lead to, and whatever its check does, a
selection at an idle stage asks about the promotions in line from the front, each at most once, and
stops at the first that is not stale. The stale ones leave the line and nothing else changes. At a
stage that is unknown or has a holder it asks nothing and changes nothing.
-/

namespace StageGate.Gates

variable {σ ε : Type} (check : PromotionKey → StateM σ (Except ε Verdict)) {gs : Gates}
  {stage : StageKey} {g : Gate}

theorem set_gate?_self (known : gs.gate? stage = some g) : gs.set stage g = gs := by
  have hsame : gs.byStage.insert stage g = gs.byStage := by
    refine SortedMap.ext_get? fun other => ?_
    by_cases ho : other = stage
    · rw [ho, SortedMap.get?_insert_self]
      exact known.symm
    · exact SortedMap.get?_insert_of_ne _ _ ho
  rw [set, hsame]

theorem select_of_unknown (unknown : gs.gate? stage = none) (start : σ) :
    (gs.select check stage).run start = ((⟨.ok none, []⟩, gs), start) := by
  rw [select, unknown]
  rfl

theorem select_of_known (known : gs.gate? stage = some g) (start : σ) :
    (gs.select check stage).run start = ((((g.select check).run start).1.1,
      gs.set stage ((g.select check).run start).1.2), ((g.select check).run start).2) := by
  rw [select, known]
  rfl

theorem select_idles (h : stage ∉ gs.stages ∨ gs.active? stage ≠ none) (start : σ) :
    (gs.select check stage).run start = ((⟨.ok none, []⟩, gs), start) := by
  cases hg : gs.gate? stage with
  | none => exact select_of_unknown check hg start
  | some g =>
    have hknown : stage ∈ gs.stages := by simp [mem_stages_iff, hg]
    have hheld : g.holder ≠ none := by
      rw [← gate_of_gate?_some hg]
      exact h.resolve_left (not_not_intro hknown)
    rw [select_of_known check hg, Gate.select_of_holder hheld, set_gate?_self hg]

/-- A selection at a stage: it passes over a part of the line and leaves the rest, and its check
ends as after these questions. The last is about the first that is left, which is not stale. -/
structure Asking (gs : Gates) (stage : StageKey) (start : σ) (passed : List Entry)
    (last : Notes ε) : Prop where
  split : (gs.gate stage).waiting.items =
    passed ++ (((gs.select check stage).run start).1.2.gate stage).waiting.items
  noted : (gs.select (noting check) stage).run (start, []) =
    (((gs.select check stage).run start).1,
      (((gs.select check stage).run start).2, Gate.askedOf passed last))
  answers : Gate.Answers check start (Gate.askedOf passed last)
    ((gs.select check stage).run start).2
  unstale : ∀ {k}, (k, .ok .stale) ∉ last
  first : last.map Prod.fst <+: ((gs.select check stage).run start).1.2.pending stage

namespace Asking

variable {check} {start : σ} {passed : List Entry} {last : Notes ε}

theorem pending (h : Asking check gs stage start passed last) : gs.pending stage =
    passed.map Entry.key ++ ((gs.select check stage).run start).1.2.pending stage := by
  rw [Gates.pending, Gate.pending, h.split, List.map_append]
  rfl

theorem keys_prefix (h : Asking check gs stage start passed last) :
    (Gate.askedOf passed last).map Prod.fst <+: gs.pending stage := by
  rw [Gates.pending, Gate.pending, h.split]
  exact Gate.keys_askedOf_prefix h.first

theorem mem_pending (h : Asking check gs stage start passed last)
    (line : (gs.pending stage).Nodup) (k : PromotionKey) :
    k ∈ ((gs.select check stage).run start).1.2.pending stage ↔
      k ∈ gs.pending stage ∧ (k, .ok .stale) ∉ Gate.askedOf passed last := by
  rw [h.pending] at line ⊢
  rw [Gate.mem_askedOf_stale h.unstale, List.mem_append]
  have hapart := (List.nodup_append.mp line).2.2
  constructor
  · exact fun hk => ⟨.inr hk, fun hp => hapart k hp k hk rfl⟩
  · rintro ⟨hk, hp⟩
    exact hk.resolve_left hp

end Asking

theorem asking_idles (h : stage ∉ gs.stages ∨ gs.active? stage ≠ none) (start : σ) :
    Asking check gs stage start [] [] := by
  have hrun := select_idles check h start
  have hnoted := select_idles (noting check) h (start, [])
  refine ⟨by rw [hrun]; rfl, by rw [hrun, hnoted]; rfl, ?_, by simp, by simp⟩
  rw [hrun]
  exact Gate.answers_nil start

theorem asking_open (known : stage ∈ gs.stages) (idle : gs.active? stage = none) (start : σ) :
    ∃ passed last, Asking check gs stage start passed last ∧
      Gate.Ends (((gs.select check stage).run start).1.2.gate stage).waiting.items last
        ((gs.select check stage).run start).1.1.next ∧
      ((gs.select check stage).run start).1.1.stale = passed.map Entry.key := by
  obtain ⟨g, hg⟩ := Option.isSome_iff_exists.mp (mem_stages_iff.mp known)
  have hidle : g.holder = none := by rwa [← gate_of_gate?_some hg]
  obtain ⟨passed, last, h⟩ := Gate.selectFrom_asks check g.waiting.items start
  have hrun := select_of_known check hg start
  have hnoted := select_of_known (noting check) hg (start, [])
  rw [Gate.select_of_idle hidle] at hrun hnoted
  rw [h.noted] at hnoted
  have hleft : (((gs.select check stage).run start).1.2.gate stage).waiting.items =
      ((Gate.selectFrom check g.waiting.items).run start).1.2 := by rw [hrun, gate_set_self]
  refine ⟨passed, last, ⟨?_, by rw [hnoted, hrun]; rfl, by rw [hrun]; exact h.answers,
    h.ends.not_stale, ?_⟩, ?_, by rw [hrun]; exact h.stale⟩
  · rw [gate_of_gate?_some hg, hleft]
    exact h.split
  · rw [pending, Gate.pending, hleft]
    exact h.ends.about_first
  · rw [hleft, hrun]
    exact h.ends

/-- After any calls, under any order: a selection answers alike with notes and without them, and its
check ends as if it had been asked the questions noted, no others, in that order. They are about the
front of the line, in its order, and no promotion is asked about twice. At a stage that is unknown
or has a holder nothing is asked and nothing changes. At an idle stage the line splits in two. The
first part is found stale and leaves the line; the second part stays as it is, and its first
promotion, which was found valid or whose check failed, ends the selection and is what it comes to.
So those that leave the line are those found stale. No stage gets or loses a holder, and the other
stages stay as they are. -/
theorem asked_from_front (order : Entry → Entry → Ordering) (calls : List Call) (stage : StageKey)
    {σ ε : Type} (check : PromotionKey → StateM σ (Except ε Verdict)) (start : σ) :
    let gs := ({ order } : Gates).after calls
    let answer := (gs.select check stage).run start
    let noted := (gs.select (noting check) stage).run (start, [])
    let asked := noted.2.2
    let next := answer.1.2
    noted = (answer.1, (answer.2, asked)) ∧ Gate.Answers check start asked answer.2 ∧
    asked.map Prod.fst <+: gs.pending stage ∧ (asked.map Prod.fst).Nodup ∧
    (stage ∉ gs.stages ∨ gs.active? stage ≠ none →
      asked = [] ∧ answer = ((⟨.ok none, []⟩, gs), start)) ∧
    (stage ∈ gs.stages → gs.active? stage = none → ∃ passed last,
      (gs.gate stage).waiting.items = passed ++ (next.gate stage).waiting.items ∧
      asked = passed.map (fun e => (e.key, .ok .stale)) ++ last ∧
      Gate.Ends (next.gate stage).waiting.items last answer.1.1.next ∧
      answer.1.1.stale = passed.map Entry.key) ∧
    (∀ k, k ∈ next.pending stage ↔ k ∈ gs.pending stage ∧ (k, .ok .stale) ∉ asked) ∧
    (∀ other, next.active? other = gs.active? other) ∧
    (∀ other, other ≠ stage → next.gate? other = gs.gate? other) ∧ next.order = gs.order := by
  intro gs answer noted asked next
  have hline : (gs.pending stage).Nodup := ((distinct_start order).after calls stage).line
  obtain ⟨passed, last, h, hidles, hopen⟩ : ∃ passed last, Asking check gs stage start passed last ∧
      (stage ∉ gs.stages ∨ gs.active? stage ≠ none →
        Gate.askedOf passed last = [] ∧ answer = ((⟨.ok none, []⟩, gs), start)) ∧
      (stage ∈ gs.stages → gs.active? stage = none →
        Gate.Ends (next.gate stage).waiting.items last answer.1.1.next ∧
        answer.1.1.stale = passed.map Entry.key) := by
    by_cases hi : stage ∉ gs.stages ∨ gs.active? stage ≠ none
    · exact ⟨[], [], asking_idles check hi start, fun _ => ⟨rfl, select_idles check hi start⟩,
        fun hknown hidle => absurd hi (by simp [hknown, hidle])⟩
    · obtain ⟨hknown, hidle⟩ : stage ∈ gs.stages ∧ gs.active? stage = none := by simpa using hi
      obtain ⟨passed, last, h, hends⟩ := asking_open check hknown hidle start
      exact ⟨passed, last, h, fun hi' => absurd hi' hi, fun _ _ => hends⟩
  have hasked : asked = Gate.askedOf passed last := congrArg (·.2.2) h.noted
  rw [hasked]
  refine ⟨h.noted, h.answers, h.keys_prefix, hline.sublist h.keys_prefix.sublist, hidles,
    fun hknown hidle => ?_, h.mem_pending hline, fun _ => active?_select check start,
    fun other hne => ?_, order_perform gs (.select stage check start)⟩
  · obtain ⟨hends, hstale⟩ := hopen hknown hidle
    exact ⟨passed, last, h.split, rfl, hends, hstale⟩
  · exact (AlikeAt.perform_elsewhere gs (c := .select stage check start) hne.symm).gate?

end StageGate.Gates
