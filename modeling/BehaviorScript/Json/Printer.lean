import BehaviorScript.Json.Basic
import BehaviorScript.Number.Shortest
import BehaviorScript.Text.Hex

/-!
# Writing JSON

Two layouts of one value: `Json.compact` without any blank, and
`Json.pretty` with one field or item a line, indented by two spaces.
Fields are written in the order in which the object lists them.
-/

namespace BehaviorScript

/-- Values from `0.00001` up to below `10 ^ 16` are positional. -/
def JsonNumber.layout : DecimalLayout := ⟨-5, 15⟩

def JsonNumber.write : JsonNumber → String
  | .whole n => toString n
  | .double d => d.text JsonNumber.layout

namespace Json

/-- Quotes, backslashes and control characters are escaped, nothing else. -/
def escapeChar (c : Char) : List Char :=
  if c = '"' then ['\\', '"']
  else if c = '\\' then ['\\', '\\']
  else if c.toNat = 8 then ['\\', 'b']
  else if c.toNat = 9 then ['\\', 't']
  else if c.toNat = 10 then ['\\', 'n']
  else if c.toNat = 12 then ['\\', 'f']
  else if c.toNat = 13 then ['\\', 'r']
  else if c.toNat < 0x20 then
    ['\\', 'u', '0', '0', Hex.digit (c.toNat / 16), Hex.digit (c.toNat % 16)]
  else [c]

def quote (s : String) : String :=
  String.ofList ('"' :: s.toList.flatMap escapeChar ++ ['"'])

mutual

def compact : Json → String
  | .null => "null"
  | .bool b => if b then "true" else "false"
  | .number n => n.write
  | .text s => quote s
  | .array items => "[" ++ ",".intercalate (compactItems items) ++ "]"
  | .object fields => "\x7b" ++ ",".intercalate (compactFields fields) ++ "\x7d"

def compactItems : List Json → List String
  | [] => []
  | j :: rest => compact j :: compactItems rest

def compactFields : List (String × Json) → List String
  | [] => []
  | (key, j) :: rest => (quote key ++ ":" ++ compact j) :: compactFields rest

end

/-- The blanks in front of a line at a depth. -/
def indent (depth : Nat) : String := String.ofList (List.replicate (2 * depth) ' ')

/-- Parts on lines of their own between two brackets. -/
def block (depth : Nat) (opening closing : String) (parts : List String) : String :=
  if parts.isEmpty then opening ++ closing
  else
    let separator := ",\n" ++ indent (depth + 1)
    opening ++ "\n" ++ indent (depth + 1) ++ separator.intercalate parts
      ++ "\n" ++ indent depth ++ closing

mutual

def prettyAt (depth : Nat) : Json → String
  | .array items => block depth "[" "]" (prettyItems (depth + 1) items)
  | .object fields => block depth "\x7b" "\x7d" (prettyFields (depth + 1) fields)
  | .null => "null"
  | .bool b => if b then "true" else "false"
  | .number n => n.write
  | .text s => quote s

def prettyItems (depth : Nat) : List Json → List String
  | [] => []
  | j :: rest => prettyAt depth j :: prettyItems depth rest

def prettyFields (depth : Nat) : List (String × Json) → List String
  | [] => []
  | (key, j) :: rest => (quote key ++ ": " ++ prettyAt depth j) :: prettyFields depth rest

end

def pretty (j : Json) : String := prettyAt 0 j

end Json

end BehaviorScript
