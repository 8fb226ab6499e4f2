import BehaviorScript.Json.Token

/-!
# Reading JSON

A machine reads the tokens one at a time over a stack of the containers
that are still open (`Reader.step`). `Json.parse?` runs it over a text:
one value with nothing behind it, at most `maxDepth` containers deep.
-/

namespace BehaviorScript

namespace Reader

/-- Containers may be nested this deep. -/
def maxDepth : Nat := 127

/-- An open container that waits for a value; what it holds so far comes
last first. -/
inductive Frame where
  | item (done : List Json)
  | field (done : List (String × Json)) (key : String)

inductive State where
  /-- A value must follow. -/
  | value (stack : List Frame)
  /-- An array has been opened: a value or its end must follow. -/
  | firstItem (stack : List Frame)
  /-- An object has been opened: a key or its end must follow. -/
  | firstKey (stack : List Frame)
  /-- A key must follow. -/
  | key (done : List (String × Json)) (stack : List Frame)
  /-- A colon must follow. -/
  | colon (done : List (String × Json)) (name : String) (stack : List Frame)
  /-- A value has ended. -/
  | ended (value : Json) (stack : List Frame)

/-- A step from where a value must follow. -/
def beginValue? (stack : List Frame) : Token → Option State
  | .scalar v => some (.ended v stack)
  | .openArray => if stack.length < maxDepth then some (.firstItem stack) else none
  | .openObject => if stack.length < maxDepth then some (.firstKey stack) else none
  | _ => none

/-- A step from behind a value inside of a container. -/
def continue? (v : Json) : Frame → List Frame → Token → Option State
  | .item done, stack, .comma => some (.value (.item (v :: done) :: stack))
  | .item done, stack, .closeArray => some (.ended (.array (v :: done).reverse) stack)
  | .field done key, stack, .comma => some (.key ((key, v) :: done) stack)
  | .field done key, stack, .closeObject =>
    some (.ended (Json.record ((key, v) :: done).reverse) stack)
  | _, _, _ => none

def step : State → Token → Option State
  | .value stack, t => beginValue? stack t
  | .firstItem stack, .closeArray => some (.ended (.array []) stack)
  | .firstItem stack, t => beginValue? (.item [] :: stack) t
  | .firstKey stack, .closeObject => some (.ended (.object []) stack)
  | .firstKey stack, .scalar (.text name) => some (.colon [] name stack)
  | .firstKey _, _ => none
  | .key done stack, .scalar (.text name) => some (.colon done name stack)
  | .key _ _, _ => none
  | .colon done name stack, .colon => some (.value (.field done name :: stack))
  | .colon _ _ _, _ => none
  | .ended v (frame :: stack), t => continue? v frame stack t
  | .ended _ [], _ => none

def run : State → List Token → Option State
  | s, [] => some s
  | s, t :: ts =>
    match step s t with
    | some s => run s ts
    | none => none

end Reader

/-- The value that the text denotes, or `none` if it is not JSON. -/
def Json.parse? (cs : List Char) : Option Json :=
  match Token.scan cs with
  | some tokens =>
    match Reader.run (.value []) tokens with
    | some (.ended v []) => some v
    | _ => none
  | none => none

/-- The value of a document given as bytes, which must be UTF-8. -/
def Json.ofBytes? (bytes : ByteArray) : Option Json :=
  match String.fromUTF8? bytes with
  | some content => Json.parse? content.toList
  | none => none

end BehaviorScript
