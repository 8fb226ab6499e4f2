import BehaviorScript.Json.Printer

/-!
# JSON schemas

The part of JSON Schema that documents are checked with. A schema is the
list of its keywords, and they are checked in the order of the list. A
keyword says nothing about a value of a type that it is not for.
-/

namespace BehaviorScript

/-- A type that a schema can ask for. -/
inductive JsonType where
  | array
  | boolean
  /-- Also a double without a fraction. -/
  | integer
  | null
  | object
  | string
deriving DecidableEq, Repr

inductive Keyword where
  | enum (values : List Json)
  | items (schema : List Keyword)
  | maximum (limit : Nat)
  | minimum (limit : Nat)
  | properties (schemas : List (String × List Keyword))
  | required (names : List String)
  | type (types : List JsonType)

abbrev Schema := List Keyword

/-- What is wrong at a place in a document. -/
structure Violation where
  /-- Where the value stands, as a JSON pointer. -/
  pointer : String
  reason : String
deriving DecidableEq, Repr

def Violation.message (v : Violation) : String := v.pointer ++ ": " ++ v.reason

namespace JsonType

def name : JsonType → String
  | .array => "array"
  | .boolean => "boolean"
  | .integer => "integer"
  | .null => "null"
  | .object => "object"
  | .string => "string"

def admits : JsonType → Json → Bool
  | .array, .array _ => true
  | .boolean, .bool _ => true
  | .integer, .number (.whole _) => true
  | .integer, .number (.double d) => d.isWhole
  | .null, .null => true
  | .object, .object _ => true
  | .string, .text _ => true
  | _, _ => false

end JsonType

namespace JsonNumber

/-- Is greater than `limit`. -/
def exceeds (limit : Nat) : JsonNumber → Bool
  | .whole n => (limit : Int) < n
  | .double d => d.exceeds limit

/-- Is less than `limit`. -/
def isBelow (limit : Nat) : JsonNumber → Bool
  | .whole n => n < (limit : Int)
  | .double d => d.isBelow limit

end JsonNumber

namespace Schema

/-! ## The keywords on their own -/

/-- The scalars that an enumeration lists. -/
def sameScalar : Json → Json → Bool
  | .null, .null => true
  | .bool a, .bool b => a = b
  | .text a, .text b => a = b
  | _, _ => false

def checkEnum (values : List Json) (pointer : String) (j : Json) : List Violation :=
  if values.any (sameScalar j) then []
  else [⟨pointer, j.compact ++ " is not one of " ++ (Json.array values).compact⟩]

def checkMaximum (limit : Nat) (pointer : String) : Json → List Violation
  | .number n =>
    if n.exceeds limit then [⟨pointer, s!"{n.write} is greater than the maximum of {limit}"⟩]
    else []
  | _ => []

def checkMinimum (limit : Nat) (pointer : String) : Json → List Violation
  | .number n =>
    if n.isBelow limit then [⟨pointer, s!"{n.write} is less than the minimum of {limit}"⟩]
    else []
  | _ => []

def checkRequired (names : List String) (pointer : String) : Json → List Violation
  | .object fields =>
    (names.filter fun name => (fields.lookup name).isNone).map fun name =>
      ⟨pointer, Json.quote name ++ " is a required property"⟩
  | _ => []

def checkType (types : List JsonType) (pointer : String) (j : Json) : List Violation :=
  if types.any fun t => t.admits j then []
  else
    let names := ", ".intercalate (types.map fun t => Json.quote t.name)
    let plural := if types.length = 1 then "type " else "types "
    [⟨pointer, j.compact ++ " is not of " ++ plural ++ names⟩]

/-! ## Schemas -/

mutual

def checkKeyword (pointer : String) (j : Json) : Keyword → List Violation
  | .enum values => checkEnum values pointer j
  | .items schema =>
    match j with
    | .array items =>
      (items.mapIdx fun i item => check s!"{pointer}/{i}" item schema).flatten
    | _ => []
  | .maximum limit => checkMaximum limit pointer j
  | .minimum limit => checkMinimum limit pointer j
  | .properties schemas => checkProperties pointer j schemas
  | .required names => checkRequired names pointer j
  | .type types => checkType types pointer j

/-- The violations of a schema by a value, in order. -/
def check (pointer : String) (j : Json) : List Keyword → List Violation
  | [] => []
  | keyword :: rest => checkKeyword pointer j keyword ++ check pointer j rest

def checkProperties (pointer : String) (j : Json) : List (String × List Keyword) → List Violation
  | [] => []
  | (name, schema) :: rest =>
    (match j.field? name with
    | some value => check s!"{pointer}/{name}" value schema
    | none => []) ++ checkProperties pointer j rest

end

/-- The violations of a schema by a whole document. -/
def violations (schema : Schema) (j : Json) : List Violation := check "" j schema

end Schema

end BehaviorScript
