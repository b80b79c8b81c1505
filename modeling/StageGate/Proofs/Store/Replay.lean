import StageGate.Proofs.Store.Versions

/-!
# The feed tells all

Whoever begins with no promotions and takes over one change after the other has at any time the
promotions that the store has, versions included. Main statements: `changes_after` says what a write
adds to the feed, and `feed_replays` that a copy which is kept up with the feed is right. What a
reader misses who falls behind is not their subject.
-/

namespace StageGate

variable {s s' : Store} {w : Write} {ws : List Write} {c : Change}

namespace Change

def replay (copy : SortedMap PromotionKey Promotion) : Change → SortedMap PromotionKey Promotion
  | .promotionCreated p => copy.insert p.key p
  | .promotionUpdated _ (some new) => copy.insert new.key new
  | .promotionUpdated _ none => copy
  | .promotionDeleted p => copy.erase p.key
  | .applicationUpdated _ _ => copy

def Fits (copy : SortedMap PromotionKey Promotion) : Change → Prop
  | .promotionCreated p => copy.get? p.key = none
  | .promotionUpdated (some old) (some new) => new.key = old.key ∧ copy.get? old.key = some old
  | .promotionUpdated _ _ => False
  | .promotionDeleted p => copy.get? p.key = some p
  | .applicationUpdated _ _ => True

end Change

namespace Store

-- ---------------------------------------------------------------------------
-- What is told
-- ---------------------------------------------------------------------------

def told (s : Store) : Write → List Change
  | .create p => (answer? (s.create p)).toList.map .promotionCreated
  | .delete key => (answer? (s.delete key)).toList.map .promotionDeleted
  | .updateStatus key version status =>
    (answer? (s.updateStatus key version status)).toList.map fun new =>
      .promotionUpdated (s.promotion? key) (some new)
  | .upsertStage _ => []
  | .upsertApplication app =>
    match s.application? app.key, answer? (s.upsertApplication app) with
    | some old, some new => [.applicationUpdated (some old) (some new)]
    | _, _ => []

theorem told_refused {e : StoreError} (h : s.write w = .error e) : s.told w = [] := by
  cases w with
  | upsertStage stage => rfl
  | upsertApplication app =>
    have hanswer : answer? (s.upsertApplication app) = none := answer?_of_error h
    simp [told, hanswer]
  | _ => exact List.map_eq_nil_iff.mpr (Option.toList_eq_nil_iff.mpr (answer?_of_error h))

theorem changes_after (s : Store) (w : Write) :
    (s.after w).feed.changes = s.feed.changes ++ s.told w := by
  cases hw : s.write w with
  | error e => rw [after_of_error hw, told_refused hw, List.append_nil]
  | ok s' =>
    rw [after_of_ok hw]
    cases accepted hw with
    | create p fresh answer next =>
      rw [told, answer, next]
      exact Feed.changes_emit _ _
    | delete key p stored answer next =>
      rw [told, answer, next]
      exact Feed.changes_emit _ _
    | updateStatus key status old stored answer next =>
      rw [told, answer, stored, next]
      exact Feed.changes_emit _ _
    | upsertStage stage answer next =>
      rw [next, foldl_reindex, told, List.append_nil]
      rfl
    | addApplication app fresh answer next =>
      rw [told, fresh, next, List.append_nil]
      rfl
    | replaceApplication app old stored answer next =>
      rw [told, stored, answer, next]
      exact Feed.changes_emit _ _

theorem changes_afterAll (s : Store) (ws : List Write) : (s.afterAll ws).feed.changes =
    s.feed.changes ++ (s.log ws).flatMap fun m => m.state.told m.act := by
  induction ws generalizing s with
  | nil => simp [afterAll, log, moments]
  | cons w ws ih =>
    have hrest : (s.afterAll (w :: ws)).feed.changes = _ := ih (s.after w)
    rw [hrest, changes_after, List.append_assoc]
    rfl

-- ---------------------------------------------------------------------------
-- Replaying what is told
-- ---------------------------------------------------------------------------

structure Replayed (s : Store) : Prop where
  promotions : s.feed.changes.foldl Change.replay .empty = s.promotions
  fits : ∀ earlier c later, s.feed.changes = earlier ++ c :: later →
    c.Fits (earlier.foldl Change.replay .empty)

theorem replayed_empty (ns : String) : Replayed { defaultNamespace := ns } :=
  ⟨rfl, fun earlier c later h => by cases earlier <;> cases h⟩

theorem Replayed.same (h : s.Replayed) (promotions : s'.promotions = s.promotions)
    (feed : s'.feed = s.feed) : s'.Replayed := by
  refine ⟨?_, ?_⟩
  · rw [feed, promotions, h.promotions]
  · rw [feed]
    exact h.fits

theorem Replayed.emit (h : s.Replayed) (feed : s'.feed = s.feed.emit c)
    (promotions : s'.promotions = c.replay s.promotions) (fits : c.Fits s.promotions) :
    s'.Replayed := by
  have hchanges : s'.feed.changes = s.feed.changes ++ [c] := by rw [feed, Feed.changes_emit]
  refine ⟨?_, fun earlier c' later hcut => ?_⟩
  · rw [hchanges, List.foldl_append, h.promotions, promotions]
    rfl
  · rw [hchanges] at hcut
    -- The change at which the feed is cut is the new one, or the feed was cut at it before.
    rcases List.eq_nil_or_concat later with rfl | ⟨later, last, rfl⟩
    · obtain ⟨rfl, hlast⟩ := List.append_inj' hcut rfl
      cases hlast
      exact h.promotions.symm ▸ fits
    · rw [List.concat_eq_append, ← List.cons_append, ← List.append_assoc] at hcut
      exact h.fits earlier c' later (List.append_inj' hcut rfl).1

theorem Replayed.write (h : s.Replayed) (keyed : s.Keyed) (hw : s.write w = .ok s') :
    s'.Replayed := by
  cases wrote hw with
  | created p fresh promotions feed => exact h.emit feed promotions fresh
  | updated key status old new stored given promotions feed =>
    subst given
    obtain rfl := keyed key old stored
    exact h.emit feed promotions ⟨rfl, stored⟩
  | deleted key p stored promotions feed =>
    obtain rfl := keyed key p stored
    exact h.emit feed promotions stored
  | elsewhere w promotions feed =>
    rcases feed with feed | ⟨old, new, feed⟩
    · exact h.same promotions feed
    · exact h.emit feed promotions trivial

/-- Whatever is written to an empty store, refused or not: a copy that is kept up with all changes
has exactly the promotions that the store has; each change says of the time before it what a copy
then has; and the changes are those that the writes tell of in turn, as the versions are those that
they give. A refused write tells of nothing, takes no version and leaves the store as it is. -/
theorem feed_replays (ns : String) (ws : List Write) :
    let start : Store := { defaultNamespace := ns }
    let s := start.afterAll ws
    s.feed.changes.foldl Change.replay .empty = s.promotions ∧
    (∀ earlier c later, s.feed.changes = earlier ++ c :: later →
      c.Fits (earlier.foldl Change.replay .empty)) ∧
    s.feed.changes = ((start.log ws).flatMap fun m => m.state.told m.act) ∧
    s.lastVersion = .ofNat ((start.log ws).filterMap fun m => m.state.given? m.act).length ∧
    ∀ (t : Store) w e, t.write w = .error e →
      t.told w = [] ∧ t.given? w = none ∧ t.after w = t := by
  intro start s
  obtain ⟨hreplayed, -⟩ : s.Replayed ∧ s.Keyed :=
    afterAll_inv (I := fun s => s.Replayed ∧ s.Keyed) ⟨replayed_empty ns, keyed_empty ns⟩
      (fun ⟨hreplayed, hkeyed⟩ hw => ⟨hreplayed.write hkeyed hw, hkeyed.write hw⟩) ws
  exact ⟨hreplayed.promotions, hreplayed.fits, changes_afterAll start ws,
    (lastVersion_afterAll start ws).trans (UInt64.zero_add _),
    fun t w e h => ⟨told_refused h, given?_refused h, after_of_error h⟩⟩

namespace Sample

def deleted : Promotion := { promotion.stamped 3 with status := .ofPhase .running }

theorem feed_replays_contested :
    let changes := (empty.afterAll contested).feed.changes
    (changes.foldl Change.replay .empty).values.map (·.metadata.version) = [5] ∧
    changes.length = 5 ∧ changes[2]? = some (.promotionDeleted deleted) ∧
    ((changes.take 2).foldl Change.replay .empty).get? key = some deleted ∧
    empty.told (.delete key) = [] := by
  intro changes
  obtain ⟨hcopy, hfits, -, -, hrefused⟩ := feed_replays "argocd" contested
  have hcut : changes = changes.take 2 ++ .promotionDeleted deleted :: changes.drop 3 := by
    decide +kernel
  refine ⟨?_, by decide +kernel, by decide +kernel, hfits _ _ _ hcut,
    (hrefused empty (.delete key) _ rfl).1⟩
  have hvalues : (empty.afterAll contested).promotions.values.map (·.metadata.version) = [5] := by
    decide +kernel
  exact hcopy ▸ hvalues

end Sample

end Store

end StageGate
