import BehaviorScript.Number.Binary64

/-!
# JSON values

The value tree that documents are read into and reports are written from.
A number keeps its kind: a whole literal that fits in 64 bits stays
whole, every other literal is a binary64 value. An object is the list of
its fields; `Json.record` is the order-free form that a document's object
is read into, with its keys in ascending order and the last of equal keys
kept.
-/

namespace BehaviorScript

inductive JsonNumber where
  /-- Between `-2 ^ 63` and `2 ^ 64 - 1`. -/
  | whole (value : Int)
  | double (value : Binary64)
deriving DecidableEq, Repr

inductive Json where
  | null
  | bool (value : Bool)
  | number (value : JsonNumber)
  | text (value : String)
  | array (items : List Json)
  | object (fields : List (String × Json))
deriving Repr

namespace Json

def nat (n : Nat) : Json := .number (.whole n)

def int (n : Int) : Json := .number (.whole n)

/-- `null` for an absent value. -/
def option {α : Type} (encode : α → Json) : Option α → Json
  | some a => encode a
  | none => .null

/-! ## Fields -/

/-- Puts a field at its place in ascending key order, over an equal key. -/
def insertField (key : String) (value : Json) : List (String × Json) → List (String × Json)
  | [] => [(key, value)]
  | (k, v) :: rest =>
    if key < k then (key, value) :: (k, v) :: rest
    else if key = k then (key, value) :: rest
    else (k, v) :: insertField key value rest

/-- The object with these fields; the last of equal keys wins. -/
def record (fields : List (String × Json)) : Json :=
  .object (fields.foldl (fun done field => insertField field.1 field.2 done) [])

def field? (name : String) : Json → Option Json
  | .object fields => fields.lookup name
  | _ => none

/-- The whole number of a value that is one. A double is none, even
without a fraction. -/
def whole? : Json → Option Int
  | .number (.whole n) => some n
  | _ => none

/-- The whole number of a value if it lies in `0 .. max`. -/
def natUpTo? (max : Nat) (j : Json) : Option Nat :=
  match j.whole? with
  | some n => if 0 ≤ n ∧ n ≤ max then some n.toNat else none
  | none => none

def text? : Json → Option String
  | .text s => some s
  | _ => none

def array? : Json → Option (List Json)
  | .array items => some items
  | _ => none

end Json

end BehaviorScript
