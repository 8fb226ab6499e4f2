import BehaviorScript.Lint.Passes
import BehaviorScript.Profile.Role

/-!
# Reports

The whole result for one script: how it decoded, the findings, its
profile and its role.
-/

namespace BehaviorScript

structure Report where
  id : UInt16
  owner : String
  status : DecodeStatus
  findings : List Finding
  profile : Profile
  classification : Classification
deriving DecidableEq, Repr

/-- The report on a script with its place in a call graph, if there is
one. -/
def Script.report (options : Options) (s : Script) (evidence : Evidence)
    (graph : Option CallGraph) : Report :=
  let profile := s.profile Primitive.yieldOpcodes evidence graph
  { id := s.image.id
    owner := s.image.owner
    status := s.decoded.status
    findings := s.lint options
    profile
    classification := profile.classify }

/-- The report on a script on its own. -/
def analyze (image : Image) (evidence : Evidence) (options : Options) :
    Except DecodeError Report :=
  match Script.ofImage image with
  | .ok s => .ok (s.report options evidence none)
  | .error e => .error e

end BehaviorScript
