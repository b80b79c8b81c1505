import StageGate.Resource.StageState
import StageGate.Resource.Subscription
import StageGate.Text.Quoted

/-!
# Selecting charts

Finds the version to promote of every chart that is subscribed to. Credentials and versions come
from outside: for each subscription in turn its credentials are looked up, then its versions are
searched with them. The first subscription that fails ends the selection.
-/

namespace StageGate

inductive CredentialKind where
  | git
  | helm
  | image
deriving DecidableEq, Repr

def CredentialKind.name : CredentialKind → String
  | .git => "Git"
  | .helm => "Helm"
  | .image => "Image"

structure Credentials where
  username : String
  password : String
deriving DecidableEq

/-- The form in which credentials may be shown: the password is kept back. -/
def Credentials.display (c : Credentials) : String :=
  "Credentials \x7b username: " ++ Text.quoted c.username ++
    ", password: " ++ Text.quoted "<redacted>" ++ " \x7d"

inductive ChartError where
  | credentials (registryURL name cause : String)
  | versionSearch (registryURL name cause : String)
  | noSuitableVersion (registryURL name : String)
deriving DecidableEq, Repr

def ChartError.message : ChartError → String
  | .credentials url name cause => s!"error obtaining credentials for chart {url}/{name}: {cause}"
  | .versionSearch url name cause =>
    s!"error searching for latest version of chart {url}/{name}: {cause}"
  | .noSuitableVersion url name => s!"found no suitable version of chart {url}/{name}"

/-- The services that a selection calls on. A failure comes with its cause. -/
structure ChartServices (m : Type → Type) where
  /-- The credentials for a namespace, a kind and the URL of a repository, if it needs any. -/
  credentials : String → CredentialKind → String → m (Except String (Option Credentials))
  /-- The newest version of the chart of a subscription, or the empty text if none is suitable. -/
  search : ChartSubscription → Option Credentials → m (Except String String)

namespace ChartServices

variable {m : Type → Type} [Monad m]

def select (services : ChartServices m) (ns : String) (s : ChartSubscription) :
    ExceptT ChartError m Chart := do
  let credentials ←
    match ← (services.credentials ns .helm s.registryURL : m _) with
    | .ok c => pure c
    | .error cause => throw (.credentials s.registryURL s.name cause)
  let version ←
    match ← (services.search s credentials : m _) with
    | .ok v => pure v
    | .error cause => throw (.versionSearch s.registryURL s.name cause)
  if version = "" then throw (.noSuitableVersion s.registryURL s.name)
  return { repoURL := s.registryURL, name := s.name, version }

def selectAll (services : ChartServices m) (ns : String) (subscriptions : List ChartSubscription) :
    ExceptT ChartError m (List Chart) :=
  subscriptions.mapM (services.select ns)

end ChartServices

end StageGate
