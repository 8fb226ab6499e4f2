/-!
# Script scopes

The id of a script tells who shares it.
-/

namespace BehaviorScript

inductive ScriptScope where
  /-- Shared by all, below `0x1000`. -/
  | global
  /-- Private to one object, below `0x2000`. -/
  | local
  /-- Shared within a group of objects. -/
  | semiGlobal
deriving DecidableEq, Repr

namespace ScriptScope

def ofId (id : UInt16) : ScriptScope :=
  if id < 0x1000 then .global
  else if id < 0x2000 then .local
  else .semiGlobal

/-- The identifier in reports. -/
def key : ScriptScope → String
  | .global => "global"
  | .local => "local"
  | .semiGlobal => "semi_global"

def label : ScriptScope → String
  | .global => "global"
  | .local => "local"
  | .semiGlobal => "semi-global"

/-- The fill color in drawings. -/
def color : ScriptScope → String
  | .global => "lightblue"
  | .local => "lightgreen"
  | .semiGlobal => "khaki"

end ScriptScope

end BehaviorScript
