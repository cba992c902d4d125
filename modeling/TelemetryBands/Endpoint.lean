import TelemetryBands.Failure
import TelemetryBands.Text.Blank

/-!
# Endpoints

A topic watches one endpoint of one device. Devices are named by up to three components separated by
points, `tenant.portal.device`; the components that a name leaves out are filled in from the scope
of the session.
-/

namespace TelemetryBands

/-- The tenant and the portal of a session, as far as it has them. -/
structure Scope where
  tenant : Option String := none
  portal : Option String := none
  deriving DecidableEq, Repr, Inhabited

/-- An endpoint of a device, with the qualifiers that are known. -/
structure Endpoint where
  tenant : Option String
  portal : Option String
  device : String
  point : String
  deriving DecidableEq, Repr

namespace Endpoint

/-- Why a pair of names is no endpoint. -/
inductive Flaw where
  | emptyPoint
  | malformedDevice (name : String)
  | tooManyComponents (name : String)
  deriving DecidableEq, Repr

/-- The text of a flaw. -/
def Flaw.text : Flaw → String
  | .emptyPoint => "endpointName must not be empty"
  | .malformedDevice name => s!"Malformed deviceName '{name}'"
  | .tooManyComponents name => s!"deviceName '{name}' has more than three components"

/-- The failure that a flaw is answered with. -/
def Flaw.failure (flaw : Flaw) : Failure :=
  ⟨.validation, flaw.text⟩

/-- The components of a device name, each without white space at its ends. -/
def components (device : String) : List String :=
  (Text.splitAtChar '.' (Text.trim device.toList)).map fun piece => String.ofList (Text.trim piece)

/-- The endpoint that a device name and an endpoint name mean in a scope. -/
def resolve (scope : Scope) (device point : String) : Except Flaw Endpoint :=
  let point := Text.trimmed point
  let parts := components device
  if point.isEmpty then .error .emptyPoint
  else if parts.any String.isEmpty then .error (.malformedDevice device)
  else
    match parts with
    | [name] => .ok ⟨scope.tenant, scope.portal, name, point⟩
    | [portal, name] => .ok ⟨scope.tenant, some portal, name, point⟩
    | [tenant, portal, name] => .ok ⟨some tenant, some portal, name, point⟩
    | _ => .error (.tooManyComponents device)

/-- The name of the device with every known qualifier. -/
def qualifiedDevice (e : Endpoint) : String :=
  ".".intercalate (e.tenant.toList ++ e.portal.toList ++ [e.device])

/-- The text that shows an endpoint. -/
def text (e : Endpoint) : String :=
  e.qualifiedDevice ++ "/" ++ e.point

end Endpoint

end TelemetryBands
