import StageGate.Proofs.Store.Created

/-!
# Writes under versions

Every write that stores an object gives it the next version, whatever its kind, so that no version
is given twice as long as there are fewer than 2^64 writes (`Ready`), and what is stored later under
a version from before is what was stored then (`Follows`). Main statement: `guarded_by_versions`,
that an update that names a version acts on the very promotion that was read under it, or not at
all.
-/

namespace StageGate.Store

variable {s s' t : Store} {w : Write} {ws : List Write} {n : Nat}

/-- The version that a write gives. A deletion gives none, and neither does a write that is refused.
-/
def given? (s : Store) : Write → Option UInt64
  | .create p => (answer? (s.create p)).map (·.metadata.version)
  | .delete _ => none
  | .updateStatus key version status =>
    (answer? (s.updateStatus key version status)).map (·.metadata.version)
  | .upsertStage stage => (answer? (s.upsertStage stage)).map (·.metadata.version)
  | .upsertApplication app => (answer? (s.upsertApplication app)).map (·.metadata.version)

structure Place where
  kind : Kind
  key : Key kind
deriving DecidableEq

def versionAt? (s : Store) : Place → Option UInt64
  | ⟨.promotion, key⟩ => (s.promotion? key).map (·.metadata.version)
  | ⟨.stage, key⟩ => (s.stage? key).map (·.metadata.version)
  | ⟨.application, key⟩ => (s.application? key).map (·.metadata.version)

/-- What a write does to versions: it gives the next one to the object at a place, it takes away the
object at a place, or it is refused. -/
inductive Versioned (s s' : Store) (w : Write) : Prop where
  | gave (x : Place) (given : s.given? w = some s.nextVersion)
      (last : s'.lastVersion = s.nextVersion)
      (versions : ∀ a, s'.versionAt? a = if a = x then some s.nextVersion else s.versionAt? a)
  | took (x : Place) (given : s.given? w = none) (last : s'.lastVersion = s.lastVersion)
      (versions : ∀ a, s'.versionAt? a = if a = x then none else s.versionAt? a)
  | refused (given : s.given? w = none) (same : s' = s)

theorem versionAt?_of_one {x : Place} {v : Option UInt64} (here : s'.versionAt? x = v)
    (others : ∀ a, a ≠ x → s'.versionAt? a = s.versionAt? a) (a : Place) :
    s'.versionAt? a = if a = x then v else s.versionAt? a := by
  split
  · next ha => rw [ha, here]
  · next ha => exact others a ha

theorem versionAt?_of_promotion {k : PromotionKey} {p : Option Promotion}
    (promotions : ∀ j, s'.promotion? j = if j = k then p else s.promotion? j)
    (stages : s'.stages = s.stages) (applications : s'.applications = s.applications) (a : Place) :
    s'.versionAt? a =
      if a = ⟨.promotion, k⟩ then p.map (·.metadata.version) else s.versionAt? a := by
  refine versionAt?_of_one (by simp [versionAt?, promotions]) (fun a ha => ?_) a
  obtain ⟨kind, j⟩ := a
  cases kind with
  | promotion =>
    have hj : j ≠ k := fun h => ha (h ▸ rfl)
    simp only [versionAt?, promotions, if_neg hj]
  | stage => simp only [versionAt?, stage?, stages]
  | application => simp only [versionAt?, application?, applications]

theorem versionAt?_putStage (s : Store) (stage : Stage) (a : Place) :
    (s.putStage stage).versionAt? a =
      if a = ⟨.stage, stage.key⟩ then some s.nextVersion else s.versionAt? a := by
  refine versionAt?_of_one (by simp [versionAt?, stage?, putStage]) (fun a ha => ?_) a
  obtain ⟨kind, j⟩ := a
  cases kind with
  | stage =>
    have hj : j ≠ stage.key := fun h => ha (h ▸ rfl)
    simp only [versionAt?, stage?, putStage, SortedMap.get?_insert_of_ne _ _ hj]
  | promotion => rfl
  | application => rfl

theorem versionAt?_putApplication (s : Store) (app : Application) (a : Place) :
    (s.putApplication app).versionAt? a =
      if a = ⟨.application, app.key⟩ then some s.nextVersion else s.versionAt? a := by
  refine versionAt?_of_one (by simp [versionAt?, application?, putApplication]) (fun a ha => ?_) a
  obtain ⟨kind, j⟩ := a
  cases kind with
  | application =>
    have hj : j ≠ app.key := fun h => ha (h ▸ rfl)
    simp only [versionAt?, application?, putApplication, SortedMap.get?_insert_of_ne _ _ hj]
  | promotion => rfl
  | stage => rfl

theorem given?_refused {e : StoreError} (h : s.write w = .error e) : s.given? w = none := by
  cases w with
  | delete key => rfl
  | _ => exact Option.map_eq_none_iff.mpr (answer?_of_error h)

theorem versioned (s : Store) (w : Write) : s.Versioned (s.after w) w := by
  cases hw : s.write w with
  | error e => exact .refused (given?_refused hw) (after_of_error hw)
  | ok s' =>
    rw [after_of_ok hw]
    cases accepted hw with
    | create p fresh answer next =>
      subst next
      exact .gave ⟨.promotion, p.key⟩ (by rw [given?, answer]; rfl) rfl
        (versionAt?_of_promotion (p := some (p.stamped s.nextVersion))
          (promotion?_insert rfl) rfl rfl)
    | delete key p stored answer next =>
      subst next
      exact .took ⟨.promotion, key⟩ rfl rfl
        (versionAt?_of_promotion (p := none) (promotion?_erase rfl) rfl rfl)
    | updateStatus key status old stored answer next =>
      subst next
      exact .gave ⟨.promotion, old.key⟩ (by rw [given?, answer]; rfl) rfl
        (versionAt?_of_promotion (p := some { old.stamped s.nextVersion with status })
          (promotion?_insert rfl) rfl rfl)
    | upsertStage stage answer next =>
      rw [foldl_reindex] at next
      exact .gave ⟨.stage, stage.key⟩ (by rw [given?, answer]; rfl) (next ▸ rfl)
        (next ▸ versionAt?_putStage s stage)
    | addApplication app fresh answer next =>
      subst next
      exact .gave ⟨.application, app.key⟩ (by rw [given?, answer]; rfl) rfl
        (versionAt?_putApplication s app)
    | replaceApplication app old stored answer next =>
      subst next
      exact .gave ⟨.application, app.key⟩ (by rw [given?, answer]; rfl) rfl
        (versionAt?_putApplication s app)

theorem lastVersion_afterAll (s : Store) (ws : List Write) : (s.afterAll ws).lastVersion =
    s.lastVersion + .ofNat ((s.log ws).filterMap fun m => m.state.given? m.act).length := by
  induction ws generalizing s with
  | nil => simp [afterAll, log, moments]
  | cons w ws ih =>
    have hrest : (s.afterAll (w :: ws)).lastVersion = _ := ih (s.after w)
    have hlog : s.log (w :: ws) = ⟨s, w⟩ :: (s.after w).log ws := rfl
    rw [hrest, hlog, List.filterMap_cons]
    cases versioned s w with
    | gave x given last versions =>
      rw [given, last, nextVersion, List.length_cons, Nat.add_comm, UInt64.ofNat_add,
        ← UInt64.add_assoc]
      rfl
    | took x given last versions => rw [given, last]
    | refused given same => rw [given, same]

-- ---------------------------------------------------------------------------
-- Versions in use
-- ---------------------------------------------------------------------------

/-- A store with versions left for so many writes, in which no two objects share a version. -/
structure Ready (s : Store) (n : Nat) : Prop where
  keyed : s.Keyed
  room : s.lastVersion.toNat + n < UInt64.size
  bounded : ∀ {a v}, s.versionAt? a = some v → v ≤ s.lastVersion
  distinct : ∀ {a b v}, s.versionAt? a = some v → s.versionAt? b = some v → a = b

/-- What became of a store: a promotion with a version from back then was there back then, and none
was created under its key since. -/
structure Follows (s t : Store) : Prop where
  last : s.lastVersion ≤ t.lastVersion
  kept : ∀ {key p}, t.promotion? key = some p → p.metadata.version ≤ s.lastVersion →
    s.promotion? key = some p
  alone : ∀ {key p}, t.promotion? key = some p → p.metadata.version ≤ s.lastVersion →
    t.creations key = s.creations key

theorem ready_empty (ns : String) {n : Nat} (few : n < UInt64.size) :
    Ready { defaultNamespace := ns } n where
  keyed := keyed_empty ns
  room := by simpa using few
  bounded {a v} h := by
    obtain ⟨kind, key⟩ := a
    cases kind <;> cases h
  distinct {a b v} h := by
    obtain ⟨kind, key⟩ := a
    cases kind <;> cases h

theorem Ready.nextVersion (h : s.Ready (n + 1)) :
    s.nextVersion.toNat = s.lastVersion.toNat + 1 ∧ s.lastVersion < s.nextVersion := by
  have hfits : s.lastVersion.toNat + 1 < UInt64.size :=
    Nat.lt_of_le_of_lt (Nat.add_le_add_left (Nat.le_add_left 1 n) _) h.room
  have hnext : s.nextVersion.toNat = s.lastVersion.toNat + 1 := by
    rw [Store.nextVersion, UInt64.toNat_add, UInt64.toNat_one]
    exact Nat.mod_eq_of_lt hfits
  exact ⟨hnext, UInt64.lt_iff_toNat_lt.mpr (by omega)⟩

theorem Ready.after (h : s.Ready (n + 1)) (w : Write) : (s.after w).Ready n := by
  obtain ⟨hnext, hlt⟩ := h.nextVersion
  have hroom := h.room
  have keyed : (s.after w).Keyed := after_inv h.keyed h.keyed.write
  have old {a : Place} (ha : s.versionAt? a = some s.nextVersion) : False :=
    absurd (h.bounded ha) (UInt64.not_le.mpr hlt)
  cases versioned s w with
  | gave x given last versions =>
    refine ⟨keyed, by rw [last, hnext]; omega, fun {a v} ha => ?_, fun {a b v} ha hb => ?_⟩
    · rw [versions] at ha
      rw [last]
      split at ha
      · exact Option.some.inj ha ▸ UInt64.le_refl _
      · exact UInt64.le_of_lt (UInt64.lt_of_le_of_lt (h.bounded ha) hlt)
    · rw [versions] at ha hb
      split at ha <;> split at hb
      · next hax hbx => rw [hax, hbx]
      · exact (old (ha ▸ hb)).elim
      · exact (old (hb ▸ ha)).elim
      · exact h.distinct ha hb
  | took x given last versions =>
    have before {a : Place} {v : UInt64} (ha : (s.after w).versionAt? a = some v) :
        s.versionAt? a = some v := by
      rw [versions] at ha
      split at ha
      · cases ha
      · exact ha
    exact ⟨keyed, by rw [last]; omega, fun ha => last ▸ h.bounded (before ha),
      fun ha hb => h.distinct (before ha) (before hb)⟩
  | refused given same =>
    rw [same]
    exact ⟨h.keyed, by omega, h.bounded, h.distinct⟩

theorem given?_eq {v : UInt64} (h : s.given? w = some v) : v = s.nextVersion := by
  cases versioned s w with
  | gave x given last versions => exact Option.some.inj (h.symm.trans given)
  | took x given last versions =>
    rw [given] at h
    cases h
  | refused given same =>
    rw [given] at h
    cases h

theorem promotion?_after {key : PromotionKey} {p : Promotion}
    (hp : (s.after w).promotion? key = some p) :
    s.promotion? key = some p ∨ p.metadata.version = s.nextVersion := by
  cases hw : s.write w with
  | error e => exact .inl (after_of_error hw ▸ hp)
  | ok s' =>
    rw [after_of_ok hw] at hp
    cases wrote hw with
    | created q fresh promotions feed =>
      rw [promotion?_insert promotions] at hp
      split at hp
      · exact .inr (Option.some.inj hp ▸ rfl)
      · exact .inl hp
    | updated k status old new stored given promotions feed =>
      rw [promotion?_insert promotions] at hp
      split at hp
      · exact .inr (Option.some.inj hp ▸ given ▸ rfl)
      · exact .inl hp
    | deleted k q stored promotions feed =>
      rw [promotion?_erase promotions] at hp
      split at hp
      · cases hp
      · exact .inl hp
    | elsewhere w promotions feed => exact .inl ((promotion?_same promotions key).symm.trans hp)

theorem Follows.refl (s : Store) : s.Follows s :=
  ⟨UInt64.le_refl _, fun hp _ => hp, fun _ _ => rfl⟩

theorem Follows.trans (h : s.Follows s') (h' : s'.Follows t) : s.Follows t where
  last := UInt64.le_trans h.last h'.last
  kept hp hv := h.kept (h'.kept hp (UInt64.le_trans hv h.last)) hv
  alone hp hv :=
    have hbefore := UInt64.le_trans hv h.last
    (h'.alone hp hbefore).trans (h.alone (h'.kept hp hbefore) hv)

theorem Ready.follows (h : s.Ready (n + 1)) (w : Write) : s.Follows (s.after w) := by
  obtain ⟨-, hlt⟩ := h.nextVersion
  have old {p : Promotion} (hv : p.metadata.version ≤ s.lastVersion) :
      p.metadata.version ≠ s.nextVersion := fun hnew => absurd (hnew ▸ hv) (UInt64.not_le.mpr hlt)
  refine ⟨?_, fun hp hv => (promotion?_after hp).resolve_right (old hv), fun hp hv => ?_⟩
  · cases versioned s w with
    | gave x given last versions => exact last ▸ UInt64.le_of_lt hlt
    | took x given last versions => exact last ▸ UInt64.le_refl _
    | refused given same =>
      rw [same]
      exact UInt64.le_refl _
  · cases hw : s.write w with
    | error e => rw [after_of_error hw]
    | ok s' =>
      rw [after_of_ok hw] at hp ⊢
      rcases (wrote hw).at_key h.keyed _ with ⟨hsame, -⟩ | ⟨q, hq, hnew, -⟩
      · exact hsame
      · obtain rfl := Option.some.inj (hq.symm.trans hp)
        exact absurd hnew (old hv)

-- ---------------------------------------------------------------------------
-- Runs
-- ---------------------------------------------------------------------------

theorem Ready.afterAll (h : s.Ready (ws.length + n)) :
    (s.afterAll ws).Ready n ∧ s.Follows (s.afterAll ws) := by
  induction ws generalizing s with
  | nil => exact ⟨by simpa [Store.afterAll] using h, .refl s⟩
  | cons w ws ih =>
    have hfirst : s.Ready ((ws.length + n) + 1) := by
      rwa [List.length_cons, Nat.add_right_comm] at h
    obtain ⟨hready, hfollows⟩ := ih (hfirst.after w)
    exact ⟨hready, (hfirst.follows w).trans hfollows⟩

/-- From any of its moments on, a run is a run of its own. -/
theorem Ready.cut {earlier later : List (Moment Store Write)} {m : Moment Store Write}
    (h : s.Ready ws.length) (hcut : s.log ws = earlier ++ m :: later) : ∃ rest,
      later = (m.state.after m.act).log rest ∧ m.state.Ready (rest.length + 1) ∧
        s.Follows m.state := by
  obtain ⟨first, rest, rfl, -, hstate, hlater⟩ := moments_cut hcut
  rw [List.length_append, List.length_cons] at h
  obtain ⟨hready, hfollows⟩ := h.afterAll
  exact ⟨rest, hlater, hstate ▸ hready, hstate ▸ hfollows⟩

theorem Ready.of_mem {m : Moment Store Write} (h : s.Ready ws.length) (hm : m ∈ s.log ws) :
    s.Follows m.state ∧ ∃ n, m.state.Ready (n + 1) := by
  obtain ⟨earlier, later, hcut⟩ := List.append_of_mem hm
  obtain ⟨rest, -, hready, hfollows⟩ := h.cut hcut
  exact ⟨hfollows, _, hready⟩

/-- The versions that are given are the next ones, without a gap. -/
theorem Ready.given (h : s.Ready ws.length) : ∃ n,
    ((s.log ws).filterMap fun m => m.state.given? m.act).map UInt64.toNat =
      List.range' (s.lastVersion.toNat + 1) n := by
  induction ws generalizing s with
  | nil => exact ⟨0, rfl⟩
  | cons w ws ih =>
    obtain ⟨n, hn⟩ := ih (h.after w)
    have hlog : s.log (w :: ws) = ⟨s, w⟩ :: (s.after w).log ws := rfl
    rw [hlog, List.filterMap_cons]
    cases versioned s w with
    | gave x given last versions =>
      refine ⟨n + 1, ?_⟩
      rw [last, h.nextVersion.1] at hn
      rw [given, List.map_cons, hn, h.nextVersion.1, List.range'_succ]
    | took x given last versions =>
      rw [last] at hn
      exact ⟨n, by rw [given, hn]⟩
    | refused given same =>
      rw [same] at hn ⊢
      exact ⟨n, by rw [given, hn]⟩

theorem Ready.rising (h : s.Ready ws.length) :
    ((s.log ws).filterMap fun m => m.state.given? m.act).Pairwise (· < ·) := by
  obtain ⟨n, hn⟩ := h.given
  have hrising := List.pairwise_lt_range' (s := s.lastVersion.toNat + 1) (n := n)
  rw [← hn, List.pairwise_map] at hrising
  exact hrising.imp UInt64.lt_iff_toNat_lt.mpr

theorem Ready.given_above (h : s.Ready ws.length) {m : Moment Store Write} (hm : m ∈ s.log ws)
    {a : Place} {old new : UInt64} (hold : s.versionAt? a = some old)
    (hnew : m.state.given? m.act = some new) : old < new := by
  obtain ⟨hfollows, _, hroom⟩ := h.of_mem hm
  rw [given?_eq hnew]
  have hbound := UInt64.le_trans (h.bounded hold) hfollows.last
  exact UInt64.lt_of_le_of_lt hbound hroom.nextVersion.2

-- ---------------------------------------------------------------------------
-- Updates
-- ---------------------------------------------------------------------------

section Updates

variable {key : PromotionKey} {version : UInt64} {status status' : PromotionStatus}

theorem updateStatus_ok_iff : (∃ p s', s.updateStatus key version status = .ok (p, s')) ↔
    ∃ p, s.promotion? key = some p ∧ p.metadata.version = version := by
  constructor
  · rintro ⟨p, s', h⟩
    obtain ⟨old, stored, hversion, -⟩ := updateStatus_ok h
    exact ⟨old, stored, hversion⟩
  · rintro ⟨p, hp, rfl⟩
    exact updateStatus_current hp status

def Updates (m : Moment Store Write) (key : PromotionKey) (version : UInt64) : Prop :=
  ∃ status p s', m.act = .updateStatus key version status ∧
    m.state.updateStatus key version status = .ok (p, s')

/-- A version serves for one update: the promotion has another one after it, for good. -/
theorem Ready.no_second_update (h : s.Ready (n + 1)) {p p' : Promotion} {t' : Store}
    (hs : s.updateStatus key version status = .ok (p, s')) (hfollows : s'.Follows t)
    (ht : t.updateStatus key version status' = .ok (p', t')) : False := by
  have hafter : s.after (.updateStatus key version status) = s' :=
    after_of_ok (map_snd_ok.mpr ⟨p, hs⟩)
  have hold := (hafter ▸ h.follows (.updateStatus key version status)).last
  obtain ⟨old, stored, rfl, rfl, promotions, -⟩ := updateStatus_ok hs
  obtain ⟨now, there, hversion, -⟩ := updateStatus_ok ht
  have hbound : old.metadata.version ≤ s.lastVersion :=
    h.bounded (a := ⟨.promotion, key⟩) (by simp [versionAt?, stored])
  -- What `t` has under the key has an old version, so it is what the first update left there.
  have hsame := hfollows.kept there (hversion ▸ UInt64.le_trans hbound hold)
  rw [promotion?_insert promotions, h.keyed key old stored, if_pos rfl] at hsame
  obtain rfl := Option.some.inj hsame
  have hnew : s.nextVersion = old.metadata.version := hversion
  exact absurd (hnew ▸ hbound) (UInt64.not_le.mpr h.nextVersion.2)

theorem Ready.updates_once (h : s.Ready ws.length) {earlier later : List (Moment Store Write)}
    {m n : Moment Store Write} (hcut : s.log ws = earlier ++ m :: later)
    (hm : Updates m key version) (hn : n ∈ later) : ¬ Updates n key version := by
  rintro ⟨status', p', t', -, hsecond⟩
  obtain ⟨rest, rfl, hready, -⟩ := h.cut hcut
  obtain ⟨status, p, s', hact, hfirst⟩ := hm
  have hafter : m.state.after m.act = s' := by
    rw [hact]
    exact after_of_ok (map_snd_ok.mpr ⟨p, hfirst⟩)
  have hfollows := ((hready.after m.act).of_mem hn).1
  exact hready.no_second_update hfirst (hafter ▸ hfollows) hsecond

/-- An update on the strength of what was read earlier replaces just that. -/
theorem Ready.replaces_read {read new : Promotion} (h : t.Ready n) (hfollows : t.Follows s)
    (keyed : s.Keyed) (hread : t.promotion? key = some read)
    (hupdate : s.updateStatus key read.metadata.version status = .ok (new, s')) :
    s.promotion? key = some read ∧ new = { read.stamped s.nextVersion with status } ∧
      (∀ j, s'.promotion? j = if j = key then some new else s.promotion? j) ∧
      s'.stages = s.stages ∧ s'.applications = s.applications := by
  obtain ⟨old, stored, hversion, rfl, promotions, stages, -⟩ := updateStatus_ok hupdate
  have hbound : read.metadata.version ≤ t.lastVersion :=
    h.bounded (a := ⟨.promotion, key⟩) (by simp [versionAt?, hread])
  obtain rfl : read = old :=
    Option.some.inj (hread.symm.trans (hfollows.kept stored (hversion ▸ hbound)))
  refine ⟨stored, rfl, fun j => ?_, stages, ?_⟩
  · rw [promotion?_insert promotions, keyed key read stored]
  · simp only [updateStatus, stored, ne_eq, not_true, if_false] at hupdate
    cases hupdate
    rfl

end Updates

/-- In a run of fewer than 2^64 writes, whoever asks for them: the versions that are given rise; at
the end no two objects share a version, and a version that is given at any moment is above those of
all objects that are or were there; an update goes through exactly if the promotion is there with
the version that it names; of the updates of a promotion that name one version at most one goes
through; and an update that goes through replaces the very promotion that was read under that
version at whatever earlier time, and changes nothing but its status and its version. -/
theorem guarded_by_versions (ns : String) {ws : List Write} (few : ws.length < UInt64.size) :
    let start : Store := { defaultNamespace := ns }
    let s := start.afterAll ws
    ((start.log ws).filterMap fun m => m.state.given? m.act).Pairwise (· < ·) ∧
    (∀ a b v, s.versionAt? a = some v → s.versionAt? b = some v → a = b) ∧
    (∀ earlier m later, start.log ws = earlier ++ m :: later → ∀ n ∈ m :: later, ∀ a old new,
      m.state.versionAt? a = some old → n.state.given? n.act = some new → old < new) ∧
    (∀ key version status, (∃ p s', s.updateStatus key version status = .ok (p, s')) ↔
      ∃ p, s.promotion? key = some p ∧ p.metadata.version = version) ∧
    (∀ earlier m later, start.log ws = earlier ++ m :: later → ∀ key version,
      Updates m key version → ∀ n ∈ later, ¬ Updates n key version) ∧
    (∀ first second, ws = first ++ second → ∀ key read status new s',
      (start.afterAll first).promotion? key = some read →
      s.updateStatus key read.metadata.version status = .ok (new, s') →
      s.promotion? key = some read ∧ new = { read.stamped s.nextVersion with status } ∧
        (∀ j, s'.promotion? j = if j = key then some new else s.promotion? j) ∧
        s'.stages = s.stages ∧ s'.applications = s.applications) := by
  intro start s
  have hready : start.Ready ws.length := ready_empty ns few
  have hend : s.Ready 0 := hready.afterAll.1
  refine ⟨hready.rising, fun _ _ _ => hend.distinct, fun earlier m later hcut n hn a old new => ?_,
    fun key version status => updateStatus_ok_iff,
    fun earlier m later hcut key version hm n hn => hready.updates_once hcut hm hn,
    fun first second hsplit key read status new s' hread => ?_⟩
  · obtain ⟨rest, rfl, hm, -⟩ := hready.cut hcut
    have hn : n ∈ m.state.log (m.act :: rest) := hn
    exact hm.given_above hn
  · subst hsplit
    rw [List.length_append] at hready
    obtain ⟨hthen, -⟩ := hready.afterAll
    have hfollows := (hthen.afterAll (n := 0)).2
    rw [← afterAll_append] at hfollows
    exact hthen.replaces_read hfollows hend.keyed hread

namespace Sample

def key : PromotionKey := ⟨"ns", "a"⟩

def promotion : Promotion :=
  { metadata := { ns := "ns", name := "a", created := ⟨0, 0⟩ }, spec := ⟨"test", "v1"⟩ }

/-- A promotion is written to twice on the strength of its first version. Then another one takes its
name, and is written to on the strength of a version of the one before it. -/
def contested : List Write :=
  [.create promotion,
    .upsertStage { metadata := { ns := "ns", name := "test", created := ⟨0, 0⟩ } },
    .updateStatus key 1 (.ofPhase .running), .updateStatus key 1 (.failed "late"), .delete key,
    .create promotion, .updateStatus key 3 (.failed "stale"),
    .updateStatus key 4 (.ofPhase .succeeded)]

def empty : Store := { defaultNamespace := "argocd" }

theorem guarded_by_versions_sample : contested.length < UInt64.size ∧
    ((empty.log contested).filterMap fun m => m.state.given? m.act) = [1, 2, 3, 4, 5] ∧
    (∃ m n later, (empty.log contested).drop 2 = m :: n :: later ∧ Updates m key 1 ∧
      n.act = .updateStatus key 1 (.failed "late") ∧ ¬ Updates n key 1) ∧
    ∀ version status, (∃ p s', (empty.afterAll contested).updateStatus key version status =
      .ok (p, s')) ↔ version = 5 := by
  have few : contested.length < UInt64.size := by decide
  obtain ⟨-, -, -, hsucceeds, honce, -⟩ := guarded_by_versions "argocd" few
  have hlast : ((empty.afterAll contested).promotion? key).map (·.metadata.version) = some 5 := by
    decide +kernel
  refine ⟨few, by decide +kernel, ⟨_, _, _, rfl, ?_, rfl, ?_⟩, fun version status => ?_⟩
  · exact ⟨_, _, _, rfl, rfl⟩
  · exact honce [_, _] _ _ rfl key 1 ⟨_, _, _, rfl, rfl⟩ _ List.mem_cons_self
  · obtain ⟨p, hp, hversion⟩ := Option.map_eq_some_iff.mp hlast
    refine (hsucceeds key version status).trans ⟨?_, fun h => ⟨p, hp, hversion.trans h.symm⟩⟩
    rintro ⟨q, hq, rfl⟩
    obtain rfl : p = q := Option.some.inj (hp.symm.trans hq)
    exact hversion

end Sample

end StageGate.Store
