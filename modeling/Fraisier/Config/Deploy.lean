import Fraisier.Data.Text

/-!
# The names of a deployment

What validation asks of the `[deploy]` section: a name and an environment that are not blank.
Nothing else is asked of the two texts.
-/

namespace Fraisier.Config

open Fraisier.Data

/-- The names of the `[deploy]` section. -/
structure DeploySection where
  name : Option String
  environment : Option String

/-- A problem of a configuration, and the field it is in. -/
structure ConfigIssue where
  path : String
  message : String
deriving DecidableEq

/-- Whether a field is there and not blank. -/
def isSet (field : Option String) : Bool :=
  field.any fun text => !(trim text).isEmpty

/-- The problems of the `[deploy]` section. -/
def validateDeploy : Option DeploySection → List ConfigIssue
  | none => [⟨"deploy", "missing required [deploy] section"⟩]
  | some deploy =>
      (if isSet deploy.name then []
      else [⟨"deploy.name", "[deploy].name is required and must be non-empty " ++
        "(the [specql] preset supplies it from its `name` field)"⟩]) ++
      (if isSet deploy.environment then []
      else [⟨"deploy.environment", "[deploy].environment is required and must be non-empty"⟩])

/-- Validation accepts a name and an environment. -/
def Accepted (fraise environment : String) : Prop :=
  validateDeploy (some ⟨some fraise, some environment⟩) = []

instance (fraise environment : String) : Decidable (Accepted fraise environment) :=
  inferInstanceAs (Decidable (_ = _))

end Fraisier.Config
