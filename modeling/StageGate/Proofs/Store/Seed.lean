import StageGate.Proofs.Store.Chronicle

/-!
# Seeded stores

A store that took in fixtures holds exactly them: of the stages under one key the last, and every
promotion as it is in the fixtures, but for the version. Main statement: `seed_ok`.
-/

namespace StageGate

def Stage.unversioned (stage : Stage) : Stage :=
  { stage with metadata := { stage.metadata with version := 0 } }

namespace Store

structure Holds (stages : List Stage) (promotions : List Promotion) (s : Store) : Prop where
  chronicle : s.Chronicle
  present : ∀ {q}, .promotionCreated q ∈ s.feed.changes → s.promotion? q.key ≠ none
  stage : ∀ key, (s.stage? key).map Stage.unversioned =
    (stages.find? (·.key = key)).map Stage.unversioned
  stored : ∀ p ∈ promotions, ∃ version, s.promotion? p.key = some (p.stamped version)
  listed : ∀ {k q}, s.promotion? k = some q → ∃ p ∈ promotions, p.key = k

variable {s s' : Store} {f : Fixtures} {stages : List Stage} {promotions : List Promotion}
  {stage stage' : Stage} {p p' : Promotion} {app app' : Application}

theorem foldlM_ok {step : β → α → Except ε β} {I : List α → β → Prop} {items : List α} {b b' : β}
    (done : List α) (one : ∀ {x done b b'}, I done b → step b x = .ok b' → I (x :: done) b')
    (hb : I done b) (h : items.foldlM step b = .ok b') : I (items.reverse ++ done) b' := by
  induction items generalizing b done with
  | nil =>
    cases h
    exact hb
  | cons x items ih =>
    rw [List.foldlM_cons] at h
    obtain ⟨c, hc, h⟩ := bind_ok.mp h
    rw [List.reverse_cons, List.append_assoc]
    exact ih (x :: done) (one hb hc) h

theorem holds_empty (ns : String) : Holds [] [] { defaultNamespace := ns } where
  chronicle := chronicle_empty ns
  present h := by cases h
  stage _ := rfl
  stored _ h := by cases h
  listed h := by cases h

theorem Holds.upsertStage (h : s.Holds stages promotions)
    (hs : s.upsertStage stage = .ok (stage', s')) : s'.Holds (stage :: stages) promotions := by
  obtain ⟨hpromotions, hstages, hfeed⟩ := upsertStage_ok hs
  have hsame := promotion?_same hpromotions
  refine ⟨h.chronicle.lawful (.elsewhere hpromotions (.inl hfeed)), fun hq => ?_, fun key => ?_,
    fun p hp => ?_, fun hq => ?_⟩
  · rw [hsame]
    exact h.present (hfeed ▸ hq)
  · rw [List.find?_cons, stage?, hstages]
    by_cases hk : stage.key = key
    · subst hk
      rw [SortedMap.get?_insert_self]
      simp only [decide_true]
      rfl
    · rw [SortedMap.get?_insert_of_ne _ _ (Ne.symm hk)]
      simp only [hk, decide_false]
      exact h.stage key
  · rw [hsame]
    exact h.stored p hp
  · rw [hsame] at hq
    exact h.listed hq

theorem Holds.upsertApplication (h : s.Holds stages promotions)
    (hs : s.upsertApplication app = .ok (app', s')) : s'.Holds stages promotions := by
  obtain ⟨hpromotions, hstages, hfeed⟩ := upsertApplication_ok hs
  have hsame := promotion?_same hpromotions
  have hl : Lawful s s' := .elsewhere hpromotions hfeed
  refine ⟨h.chronicle.lawful hl, fun hq => ?_, fun key => ?_, fun p hp => ?_, fun hq => ?_⟩
  · rw [hsame]
    rcases hl.creation hq with hq | ⟨hu, hq⟩
    · exact h.present hq
    · rw [← hsame, hq]
      exact Option.some_ne_none _
  · rw [stage?, hstages]
    exact h.stage key
  · rw [hsame]
    exact h.stored p hp
  · rw [hsame] at hq
    exact h.listed hq

theorem Holds.create (h : s.Holds stages promotions) (hs : s.create p = .ok (p', s')) :
    s'.Holds stages (p :: promotions) := by
  obtain ⟨hnone, rfl, hpromotions, hstages, hfeed⟩ := create_ok hs
  have hget := promotion?_insert hpromotions
  have hfresh : s.Unused (p.stamped s.nextVersion).key := by
    intro q hq hk
    refine h.present hq ?_
    rw [hk]
    exact hnone
  have hl : Lawful s s' := .created _ hfresh hpromotions hfeed
  refine ⟨h.chronicle.lawful hl, fun {q} hq => ?_, fun key => ?_, fun q hq => ?_,
    fun {k q} hq => ?_⟩
  · rw [hget]
    split
    · exact Option.some_ne_none _
    · next hne =>
      rcases hl.creation hq with hq | ⟨-, hq⟩
      · exact h.present hq
      · rw [hget, if_neg hne] at hq
        rw [hq]
        exact Option.some_ne_none _
  · rw [stage?, hstages]
    exact h.stage key
  · rw [hget]
    rcases List.mem_cons.mp hq with rfl | hq
    · exact ⟨_, if_pos rfl⟩
    · obtain ⟨version, hq⟩ := h.stored q hq
      refine ⟨version, ?_⟩
      rw [if_neg ?_, hq]
      intro hk
      rw [hk, hnone] at hq
      cases hq
  · rw [hget] at hq
    split at hq
    · next hk => exact ⟨p, List.mem_cons_self, hk.symm⟩
    · obtain ⟨q, hq, hk⟩ := h.listed hq
      exact ⟨q, List.mem_cons_of_mem _ hq, hk⟩

/-- A store that was seeded holds the fixtures. -/
theorem seed_ok {ns : String} (h : ({ defaultNamespace := ns } : Store).seed f = .ok s') :
    s'.Holds f.stages.reverse f.promotions.reverse := by
  simp only [seed, bind_ok] at h
  obtain ⟨staged, hstages, equipped, happs, hpromotions⟩ := h
  have hstaged : Holds (f.stages.reverse ++ []) [] staged := by
    refine foldlM_ok (I := fun done s => Holds done [] s) [] (fun h hs => ?_) (holds_empty ns)
      hstages
    obtain ⟨_, hs⟩ := map_snd_ok.mp hs
    exact h.upsertStage hs
  have hequipped : Holds (f.stages.reverse ++ []) [] equipped := by
    refine foldlM_ok (I := fun _ s => Holds _ [] s) [] (fun h hs => ?_) hstaged happs
    obtain ⟨_, hs⟩ := map_snd_ok.mp hs
    exact h.upsertApplication hs
  have hseeded : Holds (f.stages.reverse ++ []) (f.promotions.reverse ++ []) s' := by
    refine foldlM_ok (I := fun done s => Holds _ done s) [] (fun h hs => ?_) hequipped hpromotions
    obtain ⟨_, hs⟩ := map_snd_ok.mp hs
    exact h.create hs
  simpa using hseeded

end Store

end StageGate
