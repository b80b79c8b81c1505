import StageGate.Gate
import StageGate.Settings
import StageGate.Store.Write

/-!
# What the writes do

Each write that the store accepts, read as what becomes of its promotions, its stages and its feed.
The index of running promotions is left out: it has a theory of its own.
-/

namespace StageGate

def Promotion.stamped (p : Promotion) (version : UInt64) : Promotion :=
  { p with metadata := { p.metadata with version } }

/-- What a promotion keeps for as long as it is there: all but its version and its status. -/
def Promotion.bare (p : Promotion) : Promotion := { p.stamped 0 with status := {} }

/-- The promoter has something to do about a promotion. -/
def Settings.worksOn (settings : Settings) (p : Promotion) : Bool :=
  !p.isTerminal && settings.isResponsibleFor p.metadata

section
variable {p q : Promotion}

theorem Promotion.key_of_bare (h : p.bare = q.bare) : p.key = q.key := by
  show p.bare.key = q.bare.key
  rw [h]

theorem Promotion.stageKey_of_bare (h : p.bare = q.bare) : p.stageKey = q.stageKey := by
  show p.bare.stageKey = q.bare.stageKey
  rw [h]

theorem Settings.responsible_of_bare (settings : Settings) (h : p.bare = q.bare) :
    settings.isResponsibleFor p.metadata = settings.isResponsibleFor q.metadata := by
  show settings.isResponsibleFor p.bare.metadata = settings.isResponsibleFor q.bare.metadata
  rw [h]

theorem Settings.worksOn_iff {settings : Settings} : settings.worksOn p = true ↔
    p.isTerminal = false ∧ settings.isResponsibleFor p.metadata = true := by
  simp [worksOn]

end

namespace Store

variable {s s' : Store} {p p' : Promotion} {k : PromotionKey}

theorem bind_ok {x : Except ε α} {f : α → Except ε β} :
    x >>= f = .ok b ↔ ∃ a, x = .ok a ∧ f a = .ok b := by
  cases x <;> simp [bind, Except.bind]

theorem pure_ok {a b : α} : (pure a : Except ε α) = .ok b ↔ a = b := by
  simp [pure, Except.pure]

theorem map_snd_ok {x : Except ε (α × β)} : Prod.snd <$> x = .ok b ↔ ∃ a, x = .ok (a, b) := by
  rcases x with e | ⟨a, c⟩ <;> simp [Functor.map, Except.map]

-- ---------------------------------------------------------------------------
-- Look-ups
-- ---------------------------------------------------------------------------

theorem promotion?_same (h : s'.promotions = s.promotions) (j : PromotionKey) :
    s'.promotion? j = s.promotion? j := by
  rw [promotion?, h, promotion?]

theorem promotion?_insert (h : s'.promotions = s.promotions.insert k p) (j : PromotionKey) :
    s'.promotion? j = if j = k then some p else s.promotion? j := by
  unfold promotion?
  rw [h]
  split
  · next hj => rw [hj, SortedMap.get?_insert_self]
  · next hj => exact SortedMap.get?_insert_of_ne _ _ hj

theorem promotion?_erase (h : s'.promotions = s.promotions.erase k) (j : PromotionKey) :
    s'.promotion? j = if j = k then none else s.promotion? j := by
  unfold promotion?
  rw [h]
  split
  · next hj => rw [hj, SortedMap.get?_erase_self]
  · next hj => exact SortedMap.get?_erase_of_ne _ hj

theorem mem_promotionList_iff : p ∈ s.promotionList ↔ ∃ k, s.promotion? k = some p :=
  s.promotions.mem_values_iff

-- ---------------------------------------------------------------------------
-- The index
-- ---------------------------------------------------------------------------

theorem foldl_reindex (keys : List PromotionKey) (s : Store) :
    keys.foldl reindex s = { s with running := (keys.foldl reindex s).running } := by
  induction keys generalizing s with
  | nil => rfl
  | cons k keys ih =>
    rw [List.foldl_cons, ih]
    rfl

-- ---------------------------------------------------------------------------
-- Writes that are accepted
-- ---------------------------------------------------------------------------

theorem create_ok (h : s.create p = .ok (p', s')) :
    s.promotion? p.key = none ∧ p' = p.stamped s.nextVersion ∧
      s'.promotions = s.promotions.insert p.key p' ∧ s'.stages = s.stages ∧
      s'.feed = s.feed.emit (.promotionCreated p') := by
  simp only [create, bind_ok] at h
  obtain ⟨_, -, _, -, _, -, h⟩ := h
  split at h
  · cases h
  next hc =>
    have hnone : s.promotion? p.key = none := by
      simpa [SortedMap.contains, promotion?] using hc
    cases h
    exact ⟨hnone, rfl, rfl, rfl, rfl⟩

theorem delete_ok (h : s.delete k = .ok (p, s')) :
    s.promotion? k = some p ∧ s'.promotions = s.promotions.erase k ∧ s'.stages = s.stages ∧
      s'.feed = s.feed.emit (.promotionDeleted p) := by
  unfold delete at h
  split at h
  · cases h
  · next old hold => cases h; exact ⟨hold, rfl, rfl, rfl⟩

theorem updateStatus_ok {version : UInt64} {status : PromotionStatus}
    (h : s.updateStatus k version status = .ok (p', s')) :
    ∃ old, s.promotion? k = some old ∧ old.metadata.version = version ∧
      p' = { old.stamped s.nextVersion with status } ∧
      s'.promotions = s.promotions.insert old.key p' ∧ s'.stages = s.stages ∧
      s'.feed = s.feed.emit (.promotionUpdated (some old) (some p')) := by
  unfold updateStatus at h
  split at h
  · cases h
  next old hold =>
    split at h
    · cases h
    next hv =>
      cases h
      exact ⟨old, hold, by simpa using hv, rfl, rfl, rfl, rfl⟩

theorem updateStatus_current (h : s.promotion? k = some p) (status : PromotionStatus) :
    ∃ p' s', s.updateStatus k p.metadata.version status = .ok (p', s') := by
  simp [updateStatus, h]

theorem upsertStage_ok {stage stage' : Stage} (h : s.upsertStage stage = .ok (stage', s')) :
    s'.promotions = s.promotions ∧
      s'.stages = s.stages.insert stage.key
        { stage with metadata := { stage.metadata with version := s.nextVersion } } ∧
      s'.feed = s.feed := by
  simp only [upsertStage, bind_ok, pure_ok] at h
  obtain ⟨_, -, _, -, h⟩ := h
  cases h
  rw [foldl_reindex]
  exact ⟨rfl, rfl, rfl⟩

theorem upsertApplication_ok {app app' : Application}
    (h : s.upsertApplication app = .ok (app', s')) :
    s'.promotions = s.promotions ∧ s'.stages = s.stages ∧
      (s'.feed = s.feed ∨ ∃ old new, s'.feed = s.feed.emit (.applicationUpdated old new)) := by
  simp only [upsertApplication, bind_ok, pure_ok] at h
  obtain ⟨_, -, _, -, h⟩ := h
  cases h
  split
  · exact ⟨rfl, rfl, .inr ⟨_, _, rfl⟩⟩
  · exact ⟨rfl, rfl, .inl rfl⟩

/-- What an accepted write does to the promotions and to the feed. -/
inductive Wrote (s s' : Store) : Write → Prop where
  | created (p : Promotion) (fresh : s.promotion? p.key = none)
      (promotions : s'.promotions = s.promotions.insert p.key (p.stamped s.nextVersion))
      (feed : s'.feed = s.feed.emit (.promotionCreated (p.stamped s.nextVersion))) :
      s.Wrote s' (.create p)
  | updated (key : PromotionKey) (status : PromotionStatus) (old new : Promotion)
      (stored : s.promotion? key = some old)
      (given : new = { old.stamped s.nextVersion with status })
      (promotions : s'.promotions = s.promotions.insert old.key new)
      (feed : s'.feed = s.feed.emit (.promotionUpdated (some old) (some new))) :
      s.Wrote s' (.updateStatus key old.metadata.version status)
  | deleted (key : PromotionKey) (p : Promotion) (stored : s.promotion? key = some p)
      (promotions : s'.promotions = s.promotions.erase key)
      (feed : s'.feed = s.feed.emit (.promotionDeleted p)) : s.Wrote s' (.delete key)
  | elsewhere (w : Write) (promotions : s'.promotions = s.promotions)
      (feed : s'.feed = s.feed ∨ ∃ old new, s'.feed = s.feed.emit (.applicationUpdated old new)) :
      s.Wrote s' w

theorem wrote {w : Write} (h : s.write w = .ok s') : s.Wrote s' w := by
  cases w with
  | create p =>
    obtain ⟨_, h⟩ := map_snd_ok.mp h
    obtain ⟨fresh, rfl, promotions, -, feed⟩ := create_ok h
    exact .created p fresh promotions feed
  | delete key =>
    obtain ⟨p, h⟩ := map_snd_ok.mp h
    obtain ⟨stored, promotions, -, feed⟩ := delete_ok h
    exact .deleted key p stored promotions feed
  | updateStatus key version status =>
    obtain ⟨_, h⟩ := map_snd_ok.mp h
    obtain ⟨old, stored, rfl, given, promotions, -, feed⟩ := updateStatus_ok h
    exact .updated key status old _ stored given promotions feed
  | upsertStage stage =>
    obtain ⟨_, h⟩ := map_snd_ok.mp h
    obtain ⟨promotions, -, feed⟩ := upsertStage_ok h
    exact .elsewhere _ promotions (.inl feed)
  | upsertApplication app =>
    obtain ⟨_, h⟩ := map_snd_ok.mp h
    obtain ⟨promotions, -, feed⟩ := upsertApplication_ok h
    exact .elsewhere _ promotions feed

namespace Wrote

variable {w : Write}

theorem fed (h : s.Wrote s' w) : s'.feed = s.feed ∨ ∃ c, s'.feed = s.feed.emit c := by
  cases h with
  | created p fresh promotions feed => exact .inr ⟨_, feed⟩
  | updated key status old new stored given promotions feed => exact .inr ⟨_, feed⟩
  | deleted key p stored promotions feed => exact .inr ⟨_, feed⟩
  | elsewhere w promotions feed =>
    rcases feed with feed | ⟨old, new, feed⟩
    · exact .inl feed
    · exact .inr ⟨_, feed⟩

theorem changes (h : s.Wrote s' w) : s.feed.changes <+: s'.feed.changes := by
  rcases h.fed with feed | ⟨c, feed⟩
  · exact feed ▸ List.prefix_refl _
  · exact ⟨[c], by rw [feed, Feed.changes_emit]⟩

theorem before_or_created (h : s.Wrote s' w)
    (key_eq : ∀ {k p}, s.promotion? k = some p → p.key = k) (hp : s'.promotion? k = some p) :
    (∃ old, s.promotion? k = some old ∧ p.bare = old.bare) ∨
      p.key = k ∧ .promotionCreated p ∈ s'.feed.changes := by
  cases h with
  | created q fresh promotions feed =>
    rw [promotion?_insert promotions] at hp
    split at hp
    · next hk =>
      cases hp
      exact .inr ⟨hk.symm, by simp [feed, Feed.changes_emit]⟩
    · exact .inl ⟨p, hp, rfl⟩
  | updated key status old new stored given promotions feed =>
    subst given
    rw [promotion?_insert promotions] at hp
    split at hp
    · next hk =>
      cases hp
      exact .inl ⟨old, by rw [hk, key_eq stored, stored], rfl⟩
    · exact .inl ⟨p, hp, rfl⟩
  | deleted key q stored promotions feed =>
    rw [promotion?_erase promotions] at hp
    split at hp
    · cases hp
    · exact .inl ⟨p, hp, rfl⟩
  | elsewhere w promotions feed =>
    exact .inl ⟨p, (promotion?_same promotions k).symm.trans hp, rfl⟩

theorem key_eq (h : s.Wrote s' w) (keyed : ∀ {k p}, s.promotion? k = some p → p.key = k)
    (hp : s'.promotion? k = some p) : p.key = k := by
  rcases h.before_or_created keyed hp with ⟨old, hold, hb⟩ | ⟨hk, -⟩
  · exact (Promotion.key_of_bare hb).trans (keyed hold)
  · exact hk

end Wrote

theorem after_cases (s : Store) (w : Write) : s.after w = s ∨ s.write w = .ok (s.after w) := by
  unfold after
  split
  · next h => exact .inr h
  · exact .inl rfl

end Store

end StageGate
