import StageGate.Proofs.Promoter.TakenUp

/-!
# The stage that is promoted into

An attempt claims a stage for the promotion that it saw at its first look, and has the mechanics
promote what it sees later. Main statement: `promoted_as_claimed`. The mechanics are given the stage
that was claimed. They are given the promotion that it was claimed for as well, unless another one
was created under the key in between: then they are given the last of these, whatever stage it is
for (`promoted_unclaimed`).
-/

namespace StageGate

namespace World

variable {w u : World} {key : PromotionKey} {stageKey : StageKey} {p : Promotion}

theorem look_ok (h : ((look key).run w).1 = .ok (some p)) : ∃ s, w.store.Written s ∧
    s.promotion? key = some p ∧ s.Written ((look key).run w).2.store := by
  let counted : World :=
    { w with counters := { w.counters with reconciles := w.counters.reconciles + 1 } }
  exact readPromotion_ok (w := counted) h

theorem claim_of_true (h : ((claimStage p).run w).1 = true) :
    (w.gates.claim p.stageKey (.ofPromotion p)).1 = .activated := by
  rw [claimStage_run] at h
  cases hclaim : (w.gates.claim p.stageKey (.ofPromotion p)).1 with
  | activated => rfl
  | activeElsewhere other =>
    rw [hclaim] at h
    cases h
  | notNext head =>
    rw [hclaim] at h
    cases h

/-- What is taken up holds a stage that was claimed for what was seen at the first look. -/
theorem takeUp_claimed (h : (takeUp key).run.run w = (.ok (some (stageKey, p)), u)) :
    ∃ first, ((look key).run w).1 = .ok (some first) ∧ first.stageKey = stageKey ∧
      (((look key).run w).2.gates.claim stageKey (.ofPromotion first)).1 = .activated := by
  unfold takeUp at h
  obtain ⟨answer, v, hlook, h⟩ := attempt_ok h
  rw [lift_ok hlook]
  rcases answer with e | first?
  · cases h
  simp only at h
  cases hfirst : first?.filter (!·.isTerminal) with
  | none =>
    rw [hfirst] at h
    cases h
  | some first =>
    obtain ⟨rfl, -⟩ := Option.filter_eq_some_iff.mp hfirst
    rw [hfirst] at h
    obtain ⟨claimed, x, hclaim, h⟩ := attempt_ok h
    cases claimed with
    | false => cases h
    | true =>
      obtain ⟨q?, y, -, h⟩ := attempt_ok h
      cases q? with
      | none => cases h
      | some q =>
        cases h
        exact ⟨first, rfl, rfl, claim_of_true (congrArg Prod.fst (lift_ok hclaim))⟩

theorem prepare_ok {task : Task} (h : (prepare key).run.run w = (.ok (some task), u)) :
    ∃ v, (takeUp key).run.run w = (.ok (some (task.stageKey, task.promotion)), v) ∧
      task.key = key ∧ (readStage task.stageKey).run v = (.ok (some task.stage), u) := by
  rw [prepare_eq] at h
  obtain ⟨taken, v, htaken, h⟩ := attempt_ok h
  rcases taken with _ | ⟨stageKey, p⟩
  · cases h
  simp only [equip] at h
  obtain ⟨answer, x, hread, h⟩ := attempt_ok h
  rcases answer with e | _ | stage
  · cases h
  · obtain ⟨q?, y, -, h⟩ := attempt_ok h
    cases h
  · cases h
    exact ⟨v, htaken, rfl, lift_ok hread⟩

theorem reconcile_prepared {task : Task} (prepared : (prepare key).run.run w = (.ok (some task), u))
    (mechanics : Mechanics) : (reconcile mechanics key).run.run w =
      (finish task (mechanics task.stage task.promotion)).run.run u := by
  unfold reconcile
  rw [attempt_bind, prepared]

theorem readStage_key {stage : Stage} (keyed : w.store.StagesKeyed)
    (h : (readStage stageKey).run w = (.ok (some stage), u)) : stage.key = stageKey := by
  obtain ⟨s, hbefore, hanswer, -⟩ := callStore_ok _ _ _ (congrArg Prod.fst h)
  have hkeyed : s.StagesKeyed :=
    hbefore.keeps (P := Store.StagesKeyed) (fun _ _ _ hs hw => hs.write hw) keyed
  exact hkeyed stageKey stage (Except.ok.inj hanswer)

end World

open World

/-- Among other writers who write to the store what they like between any two calls: what the
mechanics are given is the stage that was claimed for the promotion of the first look, and the
promotion that stood under the key later on. This one is the last that was created there since the
first look, or the one of the first look if there is none. So it is for the stage that was claimed
if all that were created under the key in between are. -/
theorem promoted_as_claimed (mechanics : Mechanics) (key : PromotionKey) {ns : String}
    {ws : List Write} {w u : World} {task : Task}
    (stored : w.store = Store.afterAll { defaultNamespace := ns } ws)
    (prepared : (prepare key).run.run w = (.ok (some task), u)) :
    (reconcile mechanics key).run.run w =
        (finish task (mechanics task.stage task.promotion)).run.run u ∧
      ∃ first s t, ((look key).run w).1 = .ok (some first) ∧
        (((look key).run w).2.gates.claim task.stageKey (.ofPromotion first)).1 = .activated ∧
        task.stageKey = first.stageKey ∧ task.stage.key = first.stageKey ∧
        w.store.Written s ∧ s.promotion? key = some first ∧
        s.Written t ∧ t.promotion? key = some task.promotion ∧ t.Written u.store ∧
        task.promotion.bare = (s.successor t first).bare ∧
        ((∀ q ∈ s.createdSince t key, q.stageKey = task.stage.key) →
          task.promotion.stageKey = task.stage.key) := by
  have hcurrent : w.store.Current := stored ▸ Store.current_afterAll ns ws
  obtain ⟨v, htaken, -, hread⟩ := prepare_ok prepared
  obtain ⟨first, hlook, hstage, hclaim⟩ := takeUp_claimed htaken
  obtain ⟨s, hbefore, hfirst, hbetween⟩ := look_ok hlook
  obtain ⟨ts, -, htookUp⟩ := takeUp_tookUp key w
  rw [htaken] at htookUp
  obtain ⟨-, t, ht⟩ := htookUp.sighted (hcurrent.written (hbefore.trans hbetween)) _ rfl
  have hsince : s.Written t := hbetween.trans ht.before
  have hsuccessor : task.promotion.bare = (s.successor t first).bare :=
    (hcurrent.written hbefore).succeeds ((hcurrent.written hbefore).written hsince)
      (hsince.creations key) hfirst ht.stored
  have hstageKey : task.stage.key = task.stageKey := by
    refine readStage_key ?_ hread
    have hkeyed : w.store.StagesKeyed := stored ▸ Store.afterAll_inv
      (Store.stagesKeyed_empty ns) (fun h hw => h.write hw) ws
    exact ((hbefore.trans hsince).trans ht.after).keeps (P := Store.StagesKeyed)
      (fun _ _ _ hs hw => hs.write hw) hkeyed
  have hafter : t.Written u.store := by
    have hstaged := (Steady.attempting.readStage task.stageKey v).written
    rw [hread] at hstaged
    exact ht.after.trans hstaged
  refine ⟨reconcile_prepared prepared mechanics, first, s, t, hlook, hclaim, hstage.symm,
    hstageKey.trans hstage.symm, hbefore, hfirst, hsince, ht.stored, hafter, hsuccessor,
    fun hall => ?_⟩
  rw [Promotion.stageKey_of_bare hsuccessor]
  have hkey : first.key = key := (hcurrent.written hbefore).keyed key first hfirst
  rcases s.successor_cases t first with hsame | hnew
  · rw [hsame, hstage, hstageKey]
  · exact hall _ (hkey ▸ hnew)

-- ---------------------------------------------------------------------------
-- A name that is used again meanwhile
-- ---------------------------------------------------------------------------

namespace World.Sample

open Store.Sample

def stage : Stage := { metadata := { ns := "ns", name := "test", created := ⟨0, 0⟩ } }

def elsewhere : Promotion :=
  { metadata := { ns := "ns", name := "a", created := ⟨1, 0⟩ }, spec := ⟨"prod", "v1"⟩ }

/-- A promotion is about to be taken up. Before it is marked as running it is deleted, and another
one is created under its key. -/
def renamed : World :=
  { World.start {} (Store.afterAll { defaultNamespace := "argocd" }
      [.upsertStage stage, .create promotion]) with
    disturbances := ⟨[{ call := .updateStatus,
                        disturbance := { before := [.delete, .write (.create elsewhere)] } }]⟩ }

def misled : Task where
  key := key
  stageKey := ⟨"ns", "test"⟩
  stage := { stage with metadata := { stage.metadata with version := 1 } }
  promotion := { elsewhere.stamped 4 with status := .ofPhase .running }

theorem prepare_renamed : (prepare key).run.run renamed =
    (.ok (some misled), ((prepare key).run.run renamed).2) :=
  Prod.ext (by decide +kernel) rfl

theorem promoted_as_claimed_sample : ∃ (first : Promotion) (s t : Store),
    ((look key).run renamed).1 = .ok (some first) ∧ first.stageKey = misled.stage.key ∧
    s.Written t ∧ t.promotion? key = some misled.promotion ∧
    misled.promotion.bare = (s.successor t first).bare := by
  have hstored : renamed.store = Store.afterAll { defaultNamespace := "argocd" }
      [.upsertStage stage, .create promotion] := rfl
  obtain ⟨-, first, s, t, hlook, -, -, hstage, -, -, hsince, ht, -, hsuccessor, -⟩ :=
    promoted_as_claimed (fun _ _ => .crash) key hstored prepare_renamed
  exact ⟨first, s, t, hlook, hstage.symm, hsince, ht, hsuccessor⟩

theorem promoted_unclaimed : ∃ (ws : List Write) (w u : World) (task : Task),
    w.store = Store.afterAll { defaultNamespace := "argocd" } ws ∧
    (prepare key).run.run w = (.ok (some task), u) ∧
    (∀ mechanics : Mechanics, (reconcile mechanics key).run.run w =
      (finish task (mechanics task.stage task.promotion)).run.run u) ∧
    task.stage.key ≠ task.promotion.stageKey ∧
    u.gates.active? task.promotion.stageKey = none :=
  ⟨_, renamed, _, misled, rfl, prepare_renamed, reconcile_prepared prepare_renamed,
    by decide +kernel, by decide +kernel⟩

end World.Sample

end StageGate
