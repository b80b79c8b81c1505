import Mathlib.Data.List.Forall2
import StageGate.ChartSelection

/-!
# All charts or the first failure

The services may answer in any way. What a selection comes to is read off their answers: a
subscription finds its chart (`Selects`) or fails (`Fails`), and the calls made for it are
`callsFor`. Main statement: `all_or_first_failure`, about any list of subscriptions.
-/

namespace StageGate

inductive ServiceCall where
  | credentials (ns : String) (kind : CredentialKind) (registryURL : String)
  | search (s : ChartSubscription) (credentials : Option Credentials)
deriving DecidableEq

namespace ChartServices

/-- Services that give these answers, and keep account of the calls made to them. -/
def recorded (services : ChartServices Id) : ChartServices (StateM (List ServiceCall)) where
  credentials ns kind url := do
    modify (· ++ [.credentials ns kind url])
    return services.credentials ns kind url
  search s c := do
    modify (· ++ [.search s c])
    return services.search s c

variable (services : ChartServices Id) (ns : String)

def Selects (s : ChartSubscription) (chart : Chart) : Prop :=
  ∃ c v, services.credentials ns .helm s.registryURL = .ok c ∧ services.search s c = .ok v ∧
    v ≠ "" ∧ chart = { repoURL := s.registryURL, name := s.name, version := v }

inductive Fails (s : ChartSubscription) : ChartError → Prop
  | credentials (cause : String) (h : services.credentials ns .helm s.registryURL = .error cause) :
    Fails s (.credentials s.registryURL s.name cause)
  | search (c : Option Credentials) (cause : String)
    (hc : services.credentials ns .helm s.registryURL = .ok c)
    (h : services.search s c = .error cause) :
    Fails s (.versionSearch s.registryURL s.name cause)
  | unsuitable (c : Option Credentials)
    (hc : services.credentials ns .helm s.registryURL = .ok c)
    (h : services.search s c = .ok "") :
    Fails s (.noSuitableVersion s.registryURL s.name)

/-- There is no search without an answer about the credentials, and it is given that answer. -/
def callsFor (s : ChartSubscription) : List ServiceCall :=
  .credentials ns .helm s.registryURL ::
    match services.credentials ns .helm s.registryURL with
    | .ok c => [.search s c]
    | .error _ => []

variable {services ns} {s : ChartSubscription} {chart : Chart} {e : ChartError}
variable {calls : List ServiceCall}

theorem Fails.named (h : services.Fails ns s e) : ∃ before after,
    e.message = before ++ s.registryURL ++ "/" ++ s.name ++ after := by
  cases h with
  | credentials cause =>
    refine ⟨"error obtaining credentials for chart ", ": " ++ cause, ?_⟩
    rw [← String.append_assoc]
    rfl
  | search c cause =>
    refine ⟨"error searching for latest version of chart ", ": " ++ cause, ?_⟩
    rw [← String.append_assoc]
    rfl
  | unsuitable c =>
    refine ⟨"found no suitable version of chart ", "", ?_⟩
    rw [String.append_empty]
    rfl

theorem selects_or_fails (s : ChartSubscription) :
    (∃ chart, services.Selects ns s chart) ∨ ∃ e, services.Fails ns s e := by
  cases hc : services.credentials ns .helm s.registryURL with
  | error cause => exact .inr ⟨_, .credentials cause hc⟩
  | ok c =>
    cases hv : services.search s c with
    | error cause => exact .inr ⟨_, .search c cause hc hv⟩
    | ok v =>
      by_cases hempty : v = ""
      · exact .inr ⟨_, .unsuitable c hc (hempty ▸ hv)⟩
      · exact .inl ⟨_, c, v, hc, hv, hempty, rfl⟩

theorem run_select {m : Type → Type} [Monad m] [LawfulMonad m] (services : ChartServices m)
    (ns : String) (s : ChartSubscription) : (services.select ns s).run = do
      match ← services.credentials ns .helm s.registryURL with
      | .error cause => return .error (.credentials s.registryURL s.name cause)
      | .ok c =>
        match ← services.search s c with
        | .error cause => return .error (.versionSearch s.registryURL s.name cause)
        | .ok v =>
          if v = "" then return .error (.noSuitableVersion s.registryURL s.name)
          else return .ok { repoURL := s.registryURL, name := s.name, version := v } := by
  have hlift {α β : Type} (x : m α) (f : α → ExceptT ChartError m β) :
      ((liftM x : ExceptT ChartError m α) >>= f).run = x >>= fun a => (f a).run :=
    ExceptT.run_bind_lift x f
  rw [select, hlift]
  refine bind_congr fun answer => ?_
  cases answer with
  | error cause => simp
  | ok c =>
    simp only [pure_bind, hlift]
    refine bind_congr fun answer => ?_
    cases answer with
    | error cause => simp
    | ok v => by_cases hempty : v = "" <;> simp [hempty]

theorem Selects.select_run (h : services.Selects ns s chart) :
    ((services.recorded.select ns s).run.run calls).run =
      (.ok chart, calls ++ services.callsFor ns s) := by
  obtain ⟨c, v, hc, hv, hempty, rfl⟩ := h
  rw [run_select]
  simp [recorded, callsFor, hc, hv, hempty]

theorem Fails.select_run (h : services.Fails ns s e) :
    ((services.recorded.select ns s).run.run calls).run =
      (.error e, calls ++ services.callsFor ns s) := by
  rw [run_select]
  cases h with
  | credentials cause h => simp [recorded, callsFor, h]
  | search c cause hc h => simp [recorded, callsFor, hc, h]
  | unsuitable c hc h => simp [recorded, callsFor, hc, h]

-- ---------------------------------------------------------------------------
-- Lists of subscriptions
-- ---------------------------------------------------------------------------

variable {subs before rest : List ChartSubscription} {charts : List Chart}

theorem selectAll_cons (s : ChartSubscription) (subs : List ChartSubscription) :
    (services.recorded.selectAll ns (s :: subs)).run = do
      match ← (services.recorded.select ns s).run with
      | .error e => return .error e
      | .ok chart =>
        match ← (services.recorded.selectAll ns subs).run with
        | .error e => return .error e
        | .ok charts => return .ok (chart :: charts) := by
  simp only [selectAll, List.mapM_cons, ExceptT.run_bind]
  refine bind_congr fun answer => ?_
  cases answer with
  | error e => rfl
  | ok chart =>
    refine bind_congr fun answer => ?_
    cases answer <;> rfl

theorem selectAll_of_selects (h : List.Forall₂ (services.Selects ns) subs charts) :
    ((services.recorded.selectAll ns subs).run.run calls).run =
      (.ok charts, calls ++ subs.flatMap (services.callsFor ns)) := by
  induction h generalizing calls with
  | nil => simp [selectAll]
  | cons h _ ih => simp [selectAll_cons, h.select_run, ih]

theorem selectAll_of_fails (hbefore : ∀ b ∈ before, ∃ chart, services.Selects ns b chart)
    (h : services.Fails ns s e) :
    ((services.recorded.selectAll ns (before ++ s :: rest)).run.run calls).run =
      (.error e, calls ++ (before ++ [s]).flatMap (services.callsFor ns)) := by
  induction before generalizing calls with
  | nil => simp [selectAll_cons, h.select_run]
  | cons b before ih =>
    obtain ⟨⟨chart, hchart⟩, hbefore⟩ := List.forall_mem_cons.mp hbefore
    simp [selectAll_cons, hchart.select_run, ih hbefore]

theorem all_select_or_one_fails (subs : List ChartSubscription) :
    (∃ charts, List.Forall₂ (services.Selects ns) subs charts) ∨
      ∃ before s rest e, subs = before ++ s :: rest ∧
        (∀ b ∈ before, ∃ chart, services.Selects ns b chart) ∧ services.Fails ns s e := by
  induction subs with
  | nil => exact .inl ⟨[], .nil⟩
  | cons s subs ih =>
    rcases selects_or_fails s with ⟨chart, hchart⟩ | ⟨e, h⟩
    · rcases ih with ⟨charts, hcharts⟩ | ⟨before, s', rest, e, rfl, hbefore, h⟩
      · exact .inl ⟨chart :: charts, .cons hchart hcharts⟩
      · exact .inr ⟨s :: before, s', rest, e, rfl,
          List.forall_mem_cons.mpr ⟨⟨chart, hchart⟩, hbefore⟩, h⟩
    · exact .inr ⟨[], s, subs, e, rfl, by simp, h⟩

/-- A selection gives charts exactly if every subscription selects one: these, in order. It gives
an error exactly if that is how a subscription fails behind others which all select a chart, and
the error names its chart. Its calls are those for the subscriptions in order, up to and including
the one that fails. -/
theorem all_or_first_failure (services : ChartServices Id) (ns : String)
    (subs : List ChartSubscription) (calls : List ServiceCall) :
    (∀ charts after,
      ((services.recorded.selectAll ns subs).run.run calls).run = (.ok charts, after) ↔
      List.Forall₂ (services.Selects ns) subs charts ∧
        after = calls ++ subs.flatMap (services.callsFor ns)) ∧
    (∀ e after,
      ((services.recorded.selectAll ns subs).run.run calls).run = (.error e, after) ↔
      ∃ before s rest, subs = before ++ s :: rest ∧
        (∀ b ∈ before, ∃ chart, services.Selects ns b chart) ∧ services.Fails ns s e ∧
        after = calls ++ (before ++ [s]).flatMap (services.callsFor ns)) ∧
    (∀ s e, services.Fails ns s e → ∃ opening ending,
      e.message = opening ++ s.registryURL ++ "/" ++ s.name ++ ending) := by
  refine ⟨fun charts after => ⟨fun h => ?_, ?_⟩, fun e after => ⟨fun h => ?_, ?_⟩, ?_⟩
  · rcases all_select_or_one_fails subs with ⟨charts', hall⟩ | ⟨before, s, rest, e, rfl, hb, hs⟩
    · rw [selectAll_of_selects hall] at h
      cases h
      exact ⟨hall, rfl⟩
    · rw [selectAll_of_fails hb hs] at h
      cases h
  · rintro ⟨hall, rfl⟩
    exact selectAll_of_selects hall
  · rcases all_select_or_one_fails subs with ⟨charts, hall⟩ | ⟨before, s, rest, e', rfl, hb, hs⟩
    · rw [selectAll_of_selects hall] at h
      cases h
    · rw [selectAll_of_fails hb hs] at h
      cases h
      exact ⟨before, s, rest, rfl, hb, hs, rfl⟩
  · rintro ⟨before, s, rest, rfl, hb, hs, rfl⟩
    exact selectAll_of_fails hb hs
  · exact fun s e h => h.named

theorem second_of_three_fails :
    let services : ChartServices Id :=
      { credentials := fun _ _ _ => .ok none
        search := fun s _ => .ok (if s.name = "app" then "1.2.0" else "") }
    ((services.recorded.selectAll "prod" [⟨"oci://r", "app", ""⟩, ⟨"oci://r", "db", ">=2"⟩,
        ⟨"oci://r", "ui", ""⟩]).run.run []).run =
      (.error (.noSuitableVersion "oci://r" "db"),
        [.credentials "prod" .helm "oci://r", .search ⟨"oci://r", "app", ""⟩ none,
         .credentials "prod" .helm "oci://r", .search ⟨"oci://r", "db", ">=2"⟩ none]) := by
  intro services
  refine ((all_or_first_failure services "prod" _ []).2.1 _ _).mpr
    ⟨[⟨"oci://r", "app", ""⟩], ⟨"oci://r", "db", ">=2"⟩, [⟨"oci://r", "ui", ""⟩], rfl, ?_, ?_, rfl⟩
  · simp only [List.mem_singleton, forall_eq]
    exact ⟨_, none, "1.2.0", rfl, rfl, by simp, rfl⟩
  · exact .unsuitable none rfl rfl

end ChartServices

end StageGate
