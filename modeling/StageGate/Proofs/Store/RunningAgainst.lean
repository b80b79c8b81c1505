import Mathlib.Data.List.Sort
import StageGate.Proofs.Store.FieldIndex
import StageGate.Proofs.Store.History

/-!
# The promotions that run against an application

The index of a store always has for a promotion what a look at its phase and at its stage gives
(`Indexed`): each write indexes anew the promotions for which that may have changed, and no others.
Main statement: `runningAgainst_eq_scan`, that the index finds what a look at all promotions does.
-/

namespace StageGate

variable {s s' : Store} {w : Write} {app : ApplicationKey} {p q : Promotion} {ns : String}

def Promotion.Precedes (p q : Promotion) : Prop := compare p.key q.key = .lt

instance : Std.Irrefl Promotion.Precedes := ⟨fun p h => by
  simp [Promotion.Precedes, Std.ReflCmp.compare_self] at h⟩

instance : Std.Antisymm Promotion.Precedes := ⟨fun p q hpq hqp => by
  exact absurd hqp (Std.OrientedCmp.not_lt_of_lt hpq)⟩

-- ---------------------------------------------------------------------------
-- Applications as values of the index
-- ---------------------------------------------------------------------------

theorem Key.toList_indexValue (app : ApplicationKey) :
    app.indexValue.toList = app.ns.toList ++ ':' :: app.name.toList := by
  simp [Key.indexValue, toString]

/-- An application without colons in its key shares its value with no other. -/
theorem Key.indexValue_inj {other : ApplicationKey} (hns : ':' ∉ app.ns.toList)
    (hname : ':' ∉ app.name.toList) : other.indexValue = app.indexValue ↔ other = app := by
  refine ⟨fun h => ?_, fun h => h ▸ rfl⟩
  have hchars := congrArg String.toList h
  rw [toList_indexValue, toList_indexValue, eq_comm] at hchars
  obtain ⟨hns, -, hname⟩ := (List.append_cons_inj_of_notMem hns hname).mp hchars
  cases other
  cases app
  cases String.toList_inj.mp hns
  cases String.toList_inj.mp hname
  rfl

theorem Promotion.mem_indexValues {stage? : Option Stage} (hns : ':' ∉ app.ns.toList)
    (hname : ':' ∉ app.name.toList) : app.indexValue ∈ p.indexValues ns stage? ↔
      p.phase = .running ∧ ∃ stage, stage? = some stage ∧ app ∈ stage.applications ns := by
  unfold indexValues
  split
  · next stage hphase =>
    simp [hphase, mem_sortedDistinct, Key.indexValue_inj hns hname]
  · next other =>
    simp only [List.not_mem_nil, false_iff]
    rintro ⟨hphase, stage, hstage, -⟩
    exact other stage hphase hstage

theorem colon_notMem_of_checkName {kind name : String} (h : checkName kind name = .ok ()) :
    ':' ∉ name.toList := fun hcolon => by
  have hscan : ObjectName.scan .start name.toList := by
    unfold checkName ObjectName.fault? at h
    grind
  exact absurd (ObjectName.allowed_of_scan hscan ':' hcolon) (by decide)

namespace Store

theorem colon_notMem_of_upsertApplication {a a' : Application}
    (h : s.upsertApplication a = .ok (a', s')) :
    ':' ∉ a.key.ns.toList ∧ ':' ∉ a.key.name.toList := by
  simp only [upsertApplication, bind_ok] at h
  obtain ⟨_, hname, _, hns, -⟩ := h
  exact ⟨colon_notMem_of_checkName hns, colon_notMem_of_checkName hname⟩

-- ---------------------------------------------------------------------------
-- The values of the promotions
-- ---------------------------------------------------------------------------

def indexedValues (s : Store) (key : PromotionKey) : List String :=
  match s.promotion? key with
  | some p => p.indexValues s.defaultNamespace (s.stage? p.stageKey)
  | none => []

theorem indexedValues_same {key : PromotionKey}
    (namespaces : s'.defaultNamespace = s.defaultNamespace)
    (promotion : s'.promotion? key = s.promotion? key)
    (stage : ∀ p, s.promotion? key = some p → s'.stage? p.stageKey = s.stage? p.stageKey) :
    s.indexedValues key = s'.indexedValues key := by
  unfold indexedValues
  rw [promotion]
  split
  · next p hp => rw [namespaces, stage p hp]
  · rfl

structure Indexed (s : Store) : Prop where
  sound : s.running.Sound
  values : ∀ key, s.running.valuesFor key = s.indexedValues key

theorem indexed_empty (ns : String) : Indexed { defaultNamespace := ns } :=
  ⟨FieldIndex.sound_empty, fun _ => rfl⟩

/-- It is enough to index those promotions anew whose values may be out of date. -/
theorem indexed_foldl_reindex (keys : List PromotionKey) (sound : s.running.Sound)
    (others : ∀ key ∉ keys, s.running.valuesFor key = s.indexedValues key) :
    (keys.foldl reindex s).Indexed := by
  induction keys generalizing s with
  | nil => exact ⟨sound, fun key => others key List.not_mem_nil⟩
  | cons first keys ih =>
    refine ih (sound.update first _) fun key hkey => ?_
    refine (FieldIndex.valuesFor_update _ _ _ key).trans ?_
    split
    · next hfirst => exact hfirst ▸ rfl
    · next hfirst => exact others key (by simp [hfirst, hkey])

theorem Indexed.put (h : s.Indexed) (p : Promotion) : (s.put p).2.Indexed := by
  refine indexed_foldl_reindex [p.key] h.sound fun key hkey => (h.values key).trans ?_
  have hother : key ≠ p.key := fun hk => hkey (hk ▸ List.mem_cons_self)
  exact indexedValues_same rfl (SortedMap.get?_insert_of_ne _ _ hother) fun _ _ => rfl

theorem Indexed.putStage (h : s.Indexed) (keyed : s.Keyed) (stage : Stage) :
    (((s.promotionList.filter fun p => p.stageKey = stage.key).map Promotion.key).foldl reindex
      (s.putStage stage)).Indexed := by
  refine indexed_foldl_reindex _ h.sound fun key hkey => (h.values key).trans ?_
  refine indexedValues_same rfl rfl fun p hp => ?_
  have hp' : p ∈ s.promotionList := mem_promotionList_iff.mpr ⟨key, hp⟩
  have hstage : p.stageKey ≠ stage.key := fun hstage => hkey <| List.mem_map.mpr
    ⟨p, List.mem_filter.mpr ⟨hp', decide_eq_true hstage⟩, keyed key p hp⟩
  exact SortedMap.get?_insert_of_ne _ _ hstage

theorem Indexed.erase (h : s.Indexed) (key : PromotionKey) : Indexed { s with
    promotions := s.promotions.erase key
    running := s.running.remove key } := by
  refine ⟨h.sound.remove key, fun k => (FieldIndex.valuesFor_remove _ _ k).trans ?_⟩
  split
  · next hk =>
    have hgone : (s.promotions.erase key).get? k = none := hk ▸ SortedMap.get?_erase_self _ _
    simp only [indexedValues, promotion?, hgone]
  · next hk =>
    refine (h.values k).trans (indexedValues_same rfl ?_ fun _ _ => rfl)
    exact SortedMap.get?_erase_of_ne _ hk

theorem Indexed.putApplication (h : s.Indexed) (app : Application) :
    (s.putApplication app).Indexed := ⟨h.sound, h.values⟩

theorem Indexed.emit (h : s.Indexed) (c : Change) : (s.emit c).Indexed := ⟨h.sound, h.values⟩

theorem Indexed.write (h : s.Indexed) (keyed : s.Keyed) (hw : s.write w = .ok s') : s'.Indexed := by
  cases accepted hw with
  | create p fresh answer next => exact next ▸ (h.put p).emit _
  | delete key p stored answer next => exact next ▸ (h.erase key).emit _
  | updateStatus key status old stored answer next =>
    exact next ▸ (h.put { old with status }).emit _
  | upsertStage stage answer next => exact next ▸ h.putStage keyed stage
  | addApplication app fresh answer next => exact next ▸ h.putApplication app
  | replaceApplication app old stored answer next => exact next ▸ (h.putApplication app).emit _

theorem indexed_afterAll (ns : String) (ws : List Write) :
    let s := ({ defaultNamespace := ns } : Store).afterAll ws
    s.Indexed ∧ s.Keyed ∧ s.defaultNamespace = ns := by
  refine afterAll_inv (I := fun s => s.Indexed ∧ s.Keyed ∧ s.defaultNamespace = ns)
    ⟨indexed_empty ns, keyed_empty ns, rfl⟩ (fun ⟨hindexed, hkeyed, hns⟩ hw => ?_) ws
  exact ⟨hindexed.write hkeyed hw, hkeyed.write hw, (accepted hw).defaultNamespace.trans hns⟩

-- ---------------------------------------------------------------------------
-- Reading the index
-- ---------------------------------------------------------------------------

/-- What a look at a promotion tells of whether it runs against an application. -/
def runsAgainst (s : Store) (ns : String) (app : ApplicationKey) (p : Promotion) : Bool :=
  p.phase = .running && (s.stage? p.stageKey).any fun stage => app ∈ stage.applications ns

theorem runsAgainst_iff : s.runsAgainst ns app p ↔ p.phase = .running ∧
    ∃ stage, s.stage? p.stageKey = some stage ∧ app ∈ stage.applications ns := by
  simp [runsAgainst, Option.any_eq_true]

theorem Keyed.mem_promotionList (h : s.Keyed) :
    p ∈ s.promotionList ↔ s.promotion? p.key = some p := by
  rw [mem_promotionList_iff]
  exact ⟨fun ⟨k, hp⟩ => (h k p hp).symm ▸ hp, fun hp => ⟨_, hp⟩⟩

theorem Keyed.sorted_promotionList (h : s.Keyed) : s.promotionList.Pairwise Promotion.Precedes := by
  refine List.pairwise_map.mpr (s.promotions.sorted.imp_of_mem fun {a b} ha hb hab => ?_)
  have ha := h a.1 a.2 (s.promotions.mem_toList_iff.mp ha)
  have hb := h b.1 b.2 (s.promotions.mem_toList_iff.mp hb)
  rwa [Promotion.Precedes, ha, hb]

theorem Keyed.sorted_runningAgainst (h : s.Keyed) (app : ApplicationKey) :
    (s.runningAgainst app).Pairwise Promotion.Precedes := by
  refine (FieldIndex.sorted_lookup _ _).filterMap _ fun k j hkj p hp q hq => ?_
  rwa [Promotion.Precedes, h k p hp, h j q hq]

theorem Indexed.mem_runningAgainst (h : s.Indexed) (keyed : s.Keyed) (hns : ':' ∉ app.ns.toList)
    (hname : ':' ∉ app.name.toList) : p ∈ s.runningAgainst app ↔
      s.promotion? p.key = some p ∧ s.runsAgainst s.defaultNamespace app p := by
  rw [runningAgainst, List.mem_filterMap, runsAgainst_iff, ← Promotion.mem_indexValues hns hname]
  constructor
  · rintro ⟨k, hk, hp⟩
    obtain rfl := keyed k p hp
    rw [h.sound, h.values, indexedValues, hp] at hk
    exact ⟨hp, hk⟩
  · rintro ⟨hp, hvalue⟩
    refine ⟨p.key, ?_, hp⟩
    rw [h.sound, h.values, indexedValues, hp]
    exact hvalue

/-- Whatever is written to an empty store, refused or not: for an application without colons in its
key the index finds what a look at all stored promotions does, in the order of their keys, none
twice and each as it is now. The applications that a store accepts have no colons in their keys. -/
theorem runningAgainst_eq_scan (ns : String) (ws : List Write) :
    let s := ({ defaultNamespace := ns } : Store).afterAll ws
    (∀ app : ApplicationKey, ':' ∉ app.ns.toList → ':' ∉ app.name.toList →
      s.runningAgainst app = s.promotionList.filter (s.runsAgainst ns app) ∧
      (s.runningAgainst app).Pairwise Promotion.Precedes ∧
      ∀ p, p ∈ s.runningAgainst app ↔ s.promotion? p.key = some p ∧ p.phase = .running ∧
        ∃ stage, s.stage? p.stageKey = some stage ∧ app ∈ stage.applications ns) ∧
    ∀ (t : Store) a a' t', t.upsertApplication a = .ok (a', t') →
      ':' ∉ a.key.ns.toList ∧ ':' ∉ a.key.name.toList := by
  intro s
  obtain ⟨hindexed, hkeyed, hsame⟩ := indexed_afterAll ns ws
  refine ⟨fun app hns hname => ?_, fun t a a' t' => colon_notMem_of_upsertApplication⟩
  have hmem (p : Promotion) : p ∈ s.runningAgainst app ↔
      s.promotion? p.key = some p ∧ s.runsAgainst ns app p := by
    rw [hindexed.mem_runningAgainst hkeyed hns hname, hsame]
  refine ⟨?_, hkeyed.sorted_runningAgainst app, fun p => (hmem p).trans ?_⟩
  · refine (hkeyed.sorted_runningAgainst app).eq_of_mem_iff
      (hkeyed.sorted_promotionList.filter _) fun p => ?_
    rw [hmem, List.mem_filter, hkeyed.mem_promotionList]
  · rw [runsAgainst_iff]

namespace Sample

def guestbook : ApplicationKey := ⟨"argocd", "guestbook"⟩

def into (stage name : String) (phase : Phase) : Promotion :=
  { metadata := { ns := "ns", name, created := ⟨0, 0⟩ }, spec := ⟨stage, "v1"⟩,
    status := .ofPhase phase }

def updating (apps : List AppUpdate) : Stage :=
  { metadata := { ns := "ns", name := "test", created := ⟨0, 0⟩ },
    spec := { mechanisms := some { appUpdates := apps } } }

/-- Promotions run before there is a stage for them, start to run later, are done or are gone, one
has no stage at all, and one write is refused. The stage names an application twice, once without
its namespace. -/
def busy : List Write :=
  [.create (into "test" "d" .running), .create (into "test" "b" .running),
    .upsertStage (updating [⟨"guestbook", "", []⟩, ⟨"helm", "", []⟩, ⟨"guestbook", "argocd", []⟩]),
    .create (into "test" "a" .pending), .create (into "test" "c" .running),
    .create (into "other" "e" .running), .updateStatus ⟨"ns", "a"⟩ 9 (.ofPhase .running),
    .updateStatus ⟨"ns", "a"⟩ 4 (.ofPhase .running),
    .updateStatus ⟨"ns", "b"⟩ 2 (.ofPhase .succeeded),
    .create (into "test" "f" .running), .delete ⟨"ns", "c"⟩]

theorem runningAgainst_eq_scan_busy : ':' ∉ guestbook.ns.toList ∧ ':' ∉ guestbook.name.toList ∧
    ((({ defaultNamespace := "argocd" } : Store).afterAll busy).runningAgainst guestbook).map
      (fun p => (p.metadata.name, p.metadata.version)) = [("a", 7), ("d", 1), ("f", 9)] := by
  have hns : ':' ∉ guestbook.ns.toList := by decide
  have hname : ':' ∉ guestbook.name.toList := by decide
  obtain ⟨hscan, -, -⟩ := (runningAgainst_eq_scan "argocd" busy).1 guestbook hns hname
  refine ⟨hns, hname, ?_⟩
  rw [hscan]
  decide +kernel

end Sample

end Store

end StageGate
