import GroupKey.Agreement.Directory
import GroupKey.Node.Config
import GroupKey.Wire.Decode
import GroupKey.Wire.Encode

/-!
# What nodes share

Every node knows the public parameters and the configuration. At each step it also sees the
shared directory and the time. A step fails only on broken bookkeeping or a wrong set-up;
unexpected input is dropped.
-/

namespace GroupKey

/-- Why a node has to stop. -/
inductive NodeError where
  /-- No tier has room for groups of this size. -/
  | unsupportedGroupSize (size : Nat)
  /-- A group that should be held is not. -/
  | unknownGroup (id : GroupId)
  /-- The key agreement failed. -/
  | agreement (e : AgreementError)
  /-- The number of members of a group would not fit thirty-two bits. -/
  | memberCountOverflow
  deriving DecidableEq, Repr

namespace NodeError

/-- The cause in words. -/
def message : NodeError → String
  | unsupportedGroupSize size => s!"Group size {size} exceeds every parameter tier"
  | unknownGroup id => s!"Unknown group {id.render}"
  | agreement e => s!"Crypto error: {e.message}"
  | memberCountOverflow => "Member count overflow"

end NodeError

/-- The constants that nodes share. -/
structure Context (S : Suite) where
  parameters : Parameters S
  config : Config

namespace Context

variable {S : Suite}

/-- The message in a frame, if it is well formed. -/
def decode? (ctx : Context S) (frame : Bytes) : Option (Message S) :=
  match Message.decode ctx.parameters frame with
  | .ok m => some m
  | .error _ => none

end Context

end GroupKey
