import StageGate.Proofs.Json.Records
import StageGate.Proofs.Timestamp.RoundTrip
import StageGate.Resource.Application
import StageGate.Resource.Promotion
import StageGate.Resource.Stage
import StageGate.Settings

/-!
# Resources that are written can be read

Every resource, and the settings, are written as JSON from which they are read as they were, type by
type from the parts to the whole. Main statement: `resources_round_trip`. A time of creation is the
one thing that may be written in a form of its own, so the resources that carry one are those of
plain times.
-/

namespace StageGate

open Json (Restores fields? field? listField_arrayOf readable_arrayOf optional_write restores_string
  natBelow?_nat)

-- ---------------------------------------------------------------------------
-- Metadata
-- ---------------------------------------------------------------------------

namespace Metadata

theorem restores_version (version : UInt64) : Restores versionJson version? version := by
  refine ⟨Json.readable_nat _, ?_⟩
  rw [version?, versionJson, natBelow?_nat version.toNat_lt]
  exact congrArg some version.ofNat_toNat

theorem restores_labels (labels : SortedMap String String) :
    Restores labelsJson labels? labels := by
  have hreadable : ∀ m ∈ labels.toList.map fun e => (e.1, Json.string e.2), m.2.Readable := by
    intro m hm
    obtain ⟨e, -, rfl⟩ := List.mem_map.mp hm
    exact .string e.2
  refine ⟨.object _ hreadable, ?_⟩
  have hentries : (labels.toList.map fun e => (e.1, Json.string e.2)).mapM
      (fun m => m.2.text?.map (m.1, ·)) = some labels.toList := by
    induction labels.toList with
    | nil => rfl
    | cons e entries ih => simp [List.mapM_cons, ih]
  simp [labels?, labelsJson, Json.object?, hentries, SortedMap.ofList_toList]

theorem restores {m : Metadata} (now : Timestamp) (h : m.created.Plain) :
    Restores toJson (ofJson? now) m := by
  have hcreated : created? (.string m.created.render) = some m.created := by
    simp [created?, Timestamp.parse?_render h]
  constructor
  · simp [toJson, (restores_version m.version).readable, (restores_labels m.labels).readable]
  · simp [toJson, ofJson?, fields?, field?, hcreated, (restores_version m.version).read_write,
      (restores_labels m.labels).read_write]

end Metadata

-- ---------------------------------------------------------------------------
-- Promotions
-- ---------------------------------------------------------------------------

theorem Phase.restores (phase : Phase) : Restores toJson ofJson? phase :=
  ⟨.string _, by cases phase <;> decide⟩

theorem PromotionSpec.restores (s : PromotionSpec) : Restores toJson ofJson? s := by
  constructor
  · simp [toJson]
  · simp [toJson, ofJson?, fields?, field?]

theorem PromotionStatus.restores (s : PromotionStatus) : Restores toJson ofJson? s := by
  obtain ⟨phase, error⟩ := s
  have hphase := Phase.restores phase
  cases error with
  | none =>
    constructor
    · simp [toJson, Json.someMember, hphase.readable]
    · simp [toJson, ofJson?, fields?, field?, Json.someMember, hphase.read_write]
  | some error =>
    constructor
    · simp [toJson, Json.someMember, hphase.readable]
    · have herror := optional_write (restores_string error) (by simp)
      simp [toJson, ofJson?, fields?, field?, Json.someMember, hphase.read_write, herror]

theorem Promotion.restores {p : Promotion} (now : Timestamp) (h : p.metadata.created.Plain) :
    Restores toJson (ofJson? now) p := by
  have hmetadata := Metadata.restores now h
  have hspec := PromotionSpec.restores p.spec
  have hstatus := PromotionStatus.restores p.status
  constructor
  · simp [toJson, hmetadata.readable, hspec.readable, hstatus.readable]
  · simp [toJson, ofJson?, fields?, field?, hmetadata.read_write, hspec.read_write,
      hstatus.read_write]

theorem Application.restores {a : Application} (now : Timestamp) (h : a.metadata.created.Plain) :
    Restores toJson (ofJson? now) a := by
  have hmetadata := Metadata.restores now h
  constructor
  · simp [toJson, hmetadata.readable]
  · simp [toJson, ofJson?, fields?, field?, hmetadata.read_write]

-- ---------------------------------------------------------------------------
-- Stages
-- ---------------------------------------------------------------------------

theorem GitCommit.restores (c : GitCommit) : Restores toJson ofJson? c := by
  constructor
  · simp [toJson]
  · simp [toJson, ofJson?, fields?, field?]

theorem Image.restores (i : Image) : Restores toJson ofJson? i := by
  constructor
  · simp [toJson]
  · simp [toJson, ofJson?, fields?, field?]

theorem Chart.restores (c : Chart) : Restores toJson ofJson? c := by
  constructor
  · simp [toJson]
  · simp [toJson, ofJson?, fields?, field?]

theorem StageState.restores (s : StageState) : Restores toJson ofJson? s := by
  constructor
  · simp [toJson, readable_arrayOf GitCommit.restores, readable_arrayOf Image.restores,
      readable_arrayOf Chart.restores]
  · simp [toJson, ofJson?, fields?, field?, listField_arrayOf GitCommit.restores,
      listField_arrayOf Image.restores, listField_arrayOf Chart.restores]

theorem StageStatus.restores (s : StageStatus) : Restores toJson ofJson? s := by
  obtain ⟨available, current, history, error⟩ := s
  have hstates := readable_arrayOf StageState.restores
  have hlist := listField_arrayOf StageState.restores
  have hcurrent (state : StageState) :=
    optional_write (StageState.restores state) (by simp [StageState.toJson])
  constructor
  · cases current <;> by_cases h : error = "" <;>
      simp [toJson, Json.someMember, h, hstates, (StageState.restores _).readable]
  · cases current <;> by_cases h : error = "" <;>
      simp [toJson, ofJson?, fields?, field?, Json.someMember, h, hlist, hcurrent]

theorem GitSubscription.restores (s : GitSubscription) : Restores toJson ofJson? s := by
  constructor
  · simp [toJson]
  · simp [toJson, ofJson?, fields?, field?]

theorem ImageSubscription.restores (s : ImageSubscription) : Restores toJson ofJson? s := by
  constructor
  · simp [toJson, readable_arrayOf restores_string]
  · simp [toJson, ofJson?, fields?, field?, listField_arrayOf restores_string]

theorem ChartSubscription.restores (s : ChartSubscription) : Restores toJson ofJson? s := by
  constructor
  · simp [toJson]
  · simp [toJson, ofJson?, fields?, field?]

theorem RepoSubscriptions.restores (s : RepoSubscriptions) : Restores toJson ofJson? s := by
  constructor
  · simp [toJson, readable_arrayOf GitSubscription.restores,
      readable_arrayOf ImageSubscription.restores, readable_arrayOf ChartSubscription.restores]
  · simp [toJson, ofJson?, fields?, field?, listField_arrayOf GitSubscription.restores,
      listField_arrayOf ImageSubscription.restores, listField_arrayOf ChartSubscription.restores]

theorem StageSubscription.restores (s : StageSubscription) : Restores toJson ofJson? s := by
  constructor
  · simp [toJson]
  · simp [toJson, ofJson?, fields?, field?]

theorem Subscriptions.restores (s : Subscriptions) : Restores toJson ofJson? s := by
  obtain ⟨repos, stages⟩ := s
  have hstages := readable_arrayOf StageSubscription.restores
  have hlist := listField_arrayOf StageSubscription.restores
  have hrepos (repos : RepoSubscriptions) :=
    optional_write (RepoSubscriptions.restores repos) (by simp [RepoSubscriptions.toJson])
  constructor
  · cases repos <;> simp [toJson, Json.someMember, hstages, (RepoSubscriptions.restores _).readable]
  · cases repos <;> simp [toJson, ofJson?, fields?, field?, Json.someMember, hlist, hrepos]

theorem GitRepoUpdate.restores (u : GitRepoUpdate) : Restores toJson ofJson? u := by
  constructor
  · simp [toJson]
  · simp [toJson, ofJson?, fields?, field?]

theorem SourceUpdate.restores (u : SourceUpdate) : Restores toJson ofJson? u := by
  constructor
  · simp [toJson]
  · simp [toJson, ofJson?, fields?, field?]

theorem AppUpdate.restores (u : AppUpdate) : Restores toJson ofJson? u := by
  constructor
  · simp [toJson, readable_arrayOf SourceUpdate.restores]
  · simp [toJson, ofJson?, fields?, field?, listField_arrayOf SourceUpdate.restores]

theorem Mechanisms.restores (m : Mechanisms) : Restores toJson ofJson? m := by
  constructor
  · simp [toJson, readable_arrayOf GitRepoUpdate.restores, readable_arrayOf AppUpdate.restores]
  · simp [toJson, ofJson?, fields?, field?, listField_arrayOf GitRepoUpdate.restores,
      listField_arrayOf AppUpdate.restores]

theorem StageSpec.restores (s : StageSpec) : Restores toJson ofJson? s := by
  obtain ⟨subscriptions, mechanisms⟩ := s
  have hsubscriptions (s : Subscriptions) :=
    optional_write (Subscriptions.restores s) (by simp [Subscriptions.toJson])
  have hmechanisms (m : Mechanisms) :=
    optional_write (Mechanisms.restores m) (by simp [Mechanisms.toJson])
  constructor
  · cases subscriptions <;> cases mechanisms <;>
      simp [toJson, Json.someMember, (Subscriptions.restores _).readable,
        (Mechanisms.restores _).readable]
  · cases subscriptions <;> cases mechanisms <;>
      simp [toJson, ofJson?, fields?, field?, Json.someMember, hsubscriptions, hmechanisms]

theorem Stage.restores {stage : Stage} (now : Timestamp) (h : stage.metadata.created.Plain) :
    Restores toJson (ofJson? now) stage := by
  have hmetadata := Metadata.restores now h
  have hspec := StageSpec.restores stage.spec
  have hstatus := StageStatus.restores stage.status
  constructor
  · simp [toJson, hmetadata.readable, hspec.readable, hstatus.readable]
  · simp [toJson, ofJson?, fields?, field?, hmetadata.read_write, hspec.read_write,
      hstatus.read_write]

-- ---------------------------------------------------------------------------
-- Settings
-- ---------------------------------------------------------------------------

namespace Settings

theorem word64?_nat (n : UInt64) : word64? (.nat n.toNat) = some n := by
  rw [word64?, natBelow?_nat n.toNat_lt]
  exact congrArg some n.ofNat_toNat

theorem word32?_nat (n : UInt32) : word32? (.nat n.toNat) = some n := by
  rw [word32?, natBelow?_nat n.toNat_lt]
  exact congrArg some n.ofNat_toNat

/-- Nothing in the text is left to the defaults: a missing shard is written as null. -/
theorem restores (default s : Settings) : Restores toJson (ofJson? default) s := by
  have hshard : Json.optional Json.text? (some (s.shard.elim .null .string)) = some s.shard := by
    cases s.shard with
    | none => rfl
    | some shard => exact optional_write (restores_string shard) (by simp)
  constructor
  · cases h : s.shard <;> simp [toJson, h]
  · simp [toJson, ofJson?, fields?, field?, word64?_nat, word32?_nat, hshard]

end Settings

-- ---------------------------------------------------------------------------
-- From text
-- ---------------------------------------------------------------------------

/-- What is written is parsed and read as it was: statuses and settings whatever they hold, and
resources that were created at plain times. -/
theorem resources_round_trip (now : Timestamp) (default : Settings) :
    (∀ p : Promotion, p.metadata.created.Plain →
      (Json.parse? p.toJson.render).bind (Promotion.ofJson? now) = some p) ∧
    (∀ s : PromotionStatus, (Json.parse? s.toJson.render).bind PromotionStatus.ofJson? = some s) ∧
    (∀ stage : Stage, stage.metadata.created.Plain →
      (Json.parse? stage.toJson.render).bind (Stage.ofJson? now) = some stage) ∧
    (∀ a : Application, a.metadata.created.Plain →
      (Json.parse? a.toJson.render).bind (Application.ofJson? now) = some a) ∧
    ∀ s : Settings, (Json.parse? s.toJson.render).bind (Settings.ofJson? default) = some s :=
  ⟨fun _ h => (Promotion.restores now h).parsed, fun s => (PromotionStatus.restores s).parsed,
    fun _ h => (Stage.restores now h).parsed, fun _ h => (Application.restores now h).parsed,
    fun s => (Settings.restores default s).parsed⟩

namespace RoundTripSample

def metadata : Metadata where
  ns := "a \"quoted\" one"
  name := "back\\slash"
  created := ⟨253402300799, 999999000⟩
  version := 18446744073709551615
  labels := .ofList [("tier", "line\nbreak"), ("shard", "é\t\u0001")]

def promotion : Promotion := ⟨metadata, ⟨"uat", "v1"⟩, .failed ""⟩

def stage : Stage where
  metadata
  spec := ⟨some ⟨some { images := [{ repoURL := "registry", ignoreTags := ["", "latest"] }] },
    [⟨"test"⟩]⟩, some ⟨[], [⟨"app", "", [⟨"repository", "", true⟩]⟩]⟩⟩
  status := ⟨[⟨"v2", [⟨"repository", "0f1e", "main"⟩], [], []⟩], none, [{ id := "v1" }], ""⟩

theorem plain_created : metadata.created.Plain := ⟨by decide, by decide, by decide⟩

end RoundTripSample

open RoundTripSample in
theorem resources_round_trip_sample : metadata.created.Plain ∧
    (Json.parse? promotion.toJson.render).bind (Promotion.ofJson? ⟨0, 0⟩) = some promotion ∧
    (Json.parse? stage.toJson.render).bind (Stage.ofJson? ⟨0, 0⟩) = some stage := by
  obtain ⟨hpromotion, -, hstage, -, -⟩ := resources_round_trip ⟨0, 0⟩ {}
  exact ⟨plain_created, hpromotion promotion plain_created, hstage stage plain_created⟩

end StageGate
