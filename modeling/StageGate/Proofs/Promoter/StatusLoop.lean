import StageGate.Proofs.Promoter.Interference

/-!
# Writing a status until it works

A status is written over a version, and over the current one again after a conflict. What is to be
shown of this loop is shown of the three ways in which one attempt can go: it succeeds, it is the
last one, or another one follows. Main statement: `writeStatus_rule`. What the promoter knows of a
promotion meanwhile is what the store once held: `Sighted`.
-/

namespace StageGate.World

variable {w u v : World} {key : PromotionKey} {version : UInt64} {status : PromotionStatus}
  {p : Promotion} {stage : StageKey} {n m : Nat}

-- ---------------------------------------------------------------------------
-- What the store held
-- ---------------------------------------------------------------------------

theorem Fits.le (h : w.Fits n) (hm : m ≤ n) : w.Fits m := Store.Ready.le h (by omega)

theorem Onward.le (h : w.Onward m u) (hm : m ≤ n) : w.Onward n u :=
  fun k hk => h k (hk.le (Nat.add_le_add_left hm k))

/-- Between two worlds the store once held the promotion. As long as there are versions left for so
many writes besides those of others, who writes over its version later on writes over just that. -/
structure Sighted (w : World) (own : Nat) (key : PromotionKey) (p : Promotion) (s : Store)
    (u : World) : Prop where
  before : w.store.Written s
  stored : s.promotion? key = some p
  after : s.Written u.store
  follows : w.Fits own → p.metadata.version ≤ s.lastVersion ∧ s.Follows u.store

namespace Sighted

variable {s : Store}

theorem since (h : v.Sighted n key p s u) (written : w.store.Written v.store)
    (onward : w.Onward 0 v) : w.Sighted n key p s u :=
  ⟨written.trans h.before, h.stored, h.after, fun hfits => h.follows (onward n hfits).1⟩

theorem le (h : w.Sighted n key p s u) (hm : n ≤ m) : w.Sighted m key p s u :=
  { h with follows := fun hfits => h.follows (hfits.le hm) }

end Sighted

theorem sighted_readPromotion (h : ((readPromotion key).run w).1 = .ok (some p)) :
    w.Sighted 0 key p (w.found .readPromotion (some key)) ((readPromotion key).run w).2 := by
  have hanswer : ((readPromotion key).run w).1 = ((callStore .readPromotion (some key) fun s =>
      (.ok (s.promotion? key), s)).run w).1 := rfl
  have hstore := store_readPromotion key w
  rw [hanswer, callStore_run] at h
  rw [callStore_run] at hstore
  cases hout : (w.disturbances.next .readPromotion).outage with
  | some text =>
    rw [hout] at h
    cases h
  | none =>
    simp only [hout] at h hstore
    have hp : (w.found .readPromotion (some key)).promotion? key = some p := Except.ok.inj h
    refine ⟨Store.written_meddled _ _ _, hp, hstore ▸ Store.written_meddled _ _ _, fun hfits => ?_⟩
    obtain ⟨hfound, -⟩ := hfits.found .readPromotion (some key)
    exact ⟨hfound.bounded (a := ⟨.promotion, key⟩) (by simp [Store.versionAt?, hp]),
      hstore ▸ hfound.meddled.2⟩

theorem sighted_updateStatus {version : UInt64} {status : PromotionStatus}
    (keyed : w.store.Keyed) (h : ((updateStatus key version status).run w).1 = .ok p) :
    ∃ s, w.Sighted 1 key p s ((updateStatus key version status).run w).2 := by
  obtain ⟨s, hs, hstore⟩ := updateStatus_ok h
  have hwritten : w.store.Written (w.found .updateStatus (some key)) :=
    Store.written_meddled _ _ _
  obtain ⟨old, stored, -, rfl, promotions, -⟩ := Store.updateStatus_ok hs
  have hkey : old.key = key := (keyed.written hwritten) key old stored
  have hnew : s.promotion? key = some { old.stamped
      (w.found .updateStatus (some key)).nextVersion with status } := by
    rw [Store.promotion?_insert promotions, if_pos hkey.symm]
  refine ⟨s, hwritten.trans (Store.written_updateStatus hs), hnew,
    hstore ▸ Store.written_meddled _ _ _, fun hfits => ?_⟩
  obtain ⟨hfound, -⟩ := hfits.found .updateStatus (some key)
  have hafter : (w.found .updateStatus (some key)).after (.updateStatus key version status) = s :=
    Store.after_of_ok (Store.map_snd_ok.mpr ⟨_, hs⟩)
  have hready : s.Ready ((w.disturbances.next .updateStatus).after.length +
      (w.disturbances.rest .updateStatus).meddlings) :=
    hafter ▸ Store.Ready.after (hfound.le (by omega)) _
  exact ⟨hready.bounded (a := ⟨.promotion, key⟩) (by simp [Store.versionAt?, hnew]),
    hstore ▸ hready.meddled.2⟩

-- ---------------------------------------------------------------------------
-- One attempt and the next
-- ---------------------------------------------------------------------------

theorem release_lets_go (stage : StageKey) (key : PromotionKey) (w : World) :
    ((release stage key).run w).2.gates.active? stage ≠ some key := by
  obtain ⟨counters, log, hr⟩ := release_run stage key w
  rw [hr, enqueueNext_holders, Gates.active?_conclude]
  split
  · simp
  · next hnot => exact fun ha => hnot ⟨rfl, ha⟩

theorem tries_updateStatus (w : World) (key : PromotionKey) (version : UInt64)
    (status : PromotionStatus) : Tries (updateStatus key version status) w fun ts a u =>
      ts = [w.statusTry key version status] ∧
        a = ((updateStatus key version status).run w).1 ∧
        u = ((updateStatus key version status).run w).2 :=
  ⟨_, .update key version status, rfl, rfl, rfl⟩

/-- How writing a status ends from a world on in which it has failed for the last time. If it has a
result all the same, the stage is free, and the promotion is gone or has ended. -/
structure GaveUp (w : World) (p : Promotion) (answer : Except ReconcileError (Option Promotion))
    (u : World) : Prop where
  onward : w.Onward 0 u
  written : w.store.Written u.store
  free : ∀ q?, answer = .ok q? → u.gates.active? p.stageKey ≠ some p.key
  ended : ∀ q, answer = .ok (some q) → q.isTerminal = true

namespace GaveUp

theorem thrown (e : ReconcileError) (w : World) : w.GaveUp p (.error e) w where
  onward := onward_of_same rfl rfl
  written := .refl
  free _ h := by cases h
  ended _ h := by cases h

theorem released {q? : Option Promotion} (w : World)
    (ended : ∀ q, q? = some q → q.isTerminal = true) :
    w.GaveUp p (.ok q?) ((release p.stageKey p.key).run w).2 where
  onward := (Passive.release p.stageKey p.key).onward w
  written := (Steady.release p.stageKey p.key w).written
  free _ _ := release_lets_go _ _ _
  ended q hq := ended q (Except.ok.inj hq)

theorem afterRead {answer : Except ReconcileError (Option Promotion)}
    (h : ((readPromotion key).run w).2.GaveUp p answer u) : w.GaveUp p answer u where
  onward := ((Passive.readPromotion key).onward w).trans h.onward
  written := (Steady.readPromotion key w).written.trans h.written
  free := h.free
  ended := h.ended

end GaveUp

section Rule

variable {Q : UInt64 → Nat → World → List StatusTry → Except ReconcileError (Option Promotion) →
  World → Prop}

theorem tries_first {Q : List StatusTry → Except ReconcileError (Option Promotion) → World → Prop}
    {otherwise : StoreError → Attempt (Option Promotion)}
    (succeeded : ∀ updated log, ((updateStatus p.key version status).run w).1 = .ok updated →
      Q [w.statusTry p.key version status] (.ok (some updated))
        { ((updateStatus p.key version status).run w).2 with log })
    (gone : ∀ cause, ((updateStatus p.key version status).run w).1 = .error cause →
      Q [w.statusTry p.key version status] (.ok none)
        ((release p.stageKey p.key).run ((updateStatus p.key version status).run w).2).2)
    (rest : ∀ cause, ((updateStatus p.key version status).run w).1 = .error cause →
      Tries (otherwise cause).run ((updateStatus p.key version status).run w).2 fun us answer u =>
        Q (w.statusTry p.key version status :: us) answer u) :
    Tries (firstTry p status version otherwise).run w Q := by
  unfold firstTry
  refine Tries.lift_bind (tries_updateStatus w p.key version status) ?_
  rintro ts a u ⟨rfl, ha, rfl⟩
  cases a with
  | ok updated =>
    exact (Passive.record _).lift_bind ((Passive.pure _).tries _ (succeeded updated _ ha.symm))
  | error cause =>
    simp only
    split
    · exact (Passive.release _ _).lift_bind ((Passive.pure _).tries _ (gone cause ha.symm))
    · exact rest cause ha.symm

/-- By induction on how often a failed attempt may be repeated. -/
theorem writeStatus_rule (p : Promotion) (status : PromotionStatus)
    (succeeded : ∀ {version retries w updated} log,
      ((updateStatus p.key version status).run w).1 = .ok updated →
      Q version retries w [w.statusTry p.key version status] (.ok (some updated))
        { ((updateStatus p.key version status).run w).2 with log })
    (gaveUp : ∀ {version retries w cause answer u},
      ((updateStatus p.key version status).run w).1 = .error cause →
      ((updateStatus p.key version status).run w).2.GaveUp p answer u →
      Q version retries w [w.statusTry p.key version status] answer u)
    (again : ∀ {version retries w cause v latest us answer u},
      (updateStatus p.key version status).run w = (.error cause, v) →
      ((readPromotion p.key).run v).1 = .ok (some latest) → latest.isTerminal = false →
      Q latest.metadata.version retries ((readPromotion p.key).run v).2 us answer u →
      Q version (retries + 1) w (w.statusTry p.key version status :: us) answer u)
    (retries : Nat) (version : UInt64) (w : World) :
    Tries (writeStatus p status retries version).run w (Q version retries w) := by
  induction retries generalizing version w with
  | zero =>
    rw [writeStatus_zero]
    refine tries_first (fun _ log h => succeeded log h)
      (fun cause h => gaveUp h (.released _ (by simp))) fun cause hcause => ?_
    exact (Passive.pure _).tries _ (gaveUp hcause (.thrown _ _))
  | succ retries ih =>
    rw [writeStatus_succ]
    refine tries_first (fun _ log h => succeeded log h)
      (fun cause h => gaveUp h (.released _ (by simp))) fun cause hcause => ?_
    simp only
    split
    · exact (Passive.pure _).tries _ (gaveUp hcause (.thrown _ _))
    · refine (Passive.readPromotion p.key).lift_bind ?_
      rcases hanswer : ((readPromotion p.key).run ((updateStatus p.key version status).run w).2).1
        with e | _ | latest
      · exact (Passive.pure _).tries _ (gaveUp hcause (.afterRead (.thrown _ _)))
      · refine (Passive.release _ _).lift_bind ((Passive.pure _).tries _ ?_)
        exact gaveUp hcause (.afterRead (.released _ (by simp)))
      · simp only
        split
        · next hended =>
          refine (Passive.release _ _).lift_bind ((Passive.pure _).tries _ ?_)
          refine gaveUp hcause (.afterRead (.released _ fun q hq => ?_))
          exact Option.some.inj hq ▸ hended
        · next hopen =>
          refine (ih latest.metadata.version _).mono fun us answer u h => ?_
          exact again (Prod.ext hcause rfl) hanswer (by simpa using hopen) h

end Rule

end StageGate.World
