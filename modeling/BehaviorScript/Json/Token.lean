import BehaviorScript.Json.Basic
import BehaviorScript.Text.Hex

/-!
# JSON tokens

`Token.scan` cuts a text into punctuation and scalar values. It is
strict: only the four JSON blanks separate tokens, a number has no
leading zero, no bare point and no empty exponent, a string holds no raw
control character and no escape for half of a surrogate pair.

Decimal literals are read as `Magnitude.ofDecimal?` has it. Of their
digits those count that fit in 64 bits (`absorb`): a digit too many
before the point scales by ten, one behind it is dropped.
-/

namespace BehaviorScript

inductive Token where
  | openArray
  | closeArray
  | openObject
  | closeObject
  | colon
  | comma
  | scalar (value : Json)
deriving Repr

namespace Token

/-! ## Strings -/

/-- A piece of a string literal: a character, or an escaped UTF-16 unit. -/
inductive Piece where
  | char (c : Char)
  | unit (n : Nat)

def unit? (a b c d : Char) : Option Nat :=
  match Hex.digitValue? a, Hex.digitValue? b, Hex.digitValue? c, Hex.digitValue? d with
  | some p, some q, some r, some s => some (((p * 16 + q) * 16 + r) * 16 + s)
  | _, _, _, _ => none

/-- The character that a one-letter escape stands for. -/
def escaped? : Char → Option Char
  | '"' => some '"'
  | '\\' => some '\\'
  | '/' => some '/'
  | 'b' => some (Char.ofNat 8)
  | 'f' => some (Char.ofNat 12)
  | 'n' => some (Char.ofNat 10)
  | 'r' => some (Char.ofNat 13)
  | 't' => some (Char.ofNat 9)
  | _ => none

/-- Pieces up to the closing quote, and what follows it. -/
def pieces? (done : List Piece) : List Char → Option (List Piece × List Char)
  | [] => none
  | '"' :: rest => some (done.reverse, rest)
  | '\\' :: 'u' :: a :: b :: c :: d :: rest =>
    match unit? a b c d with
    | some n => pieces? (.unit n :: done) rest
    | none => none
  | '\\' :: e :: rest =>
    match escaped? e with
    | some c => pieces? (.char c :: done) rest
    | none => none
  | c :: rest => if c.toNat < 0x20 then none else pieces? (.char c :: done) rest

def isHighUnit (n : Nat) : Bool := 0xD800 ≤ n && n ≤ 0xDBFF

def isLowUnit (n : Nat) : Bool := 0xDC00 ≤ n && n ≤ 0xDFFF

/-- Joins surrogate pairs; an unpaired half is refused. -/
def join? (done : List Char) : List Piece → Option String
  | [] => some (String.ofList done.reverse)
  | .char c :: rest => join? (c :: done) rest
  | .unit n :: .unit m :: rest =>
    if isHighUnit n then
      if isLowUnit m then
        join? (Char.ofNat (0x10000 + (n - 0xD800) * 0x400 + (m - 0xDC00)) :: done) rest
      else none
    else if isLowUnit n then none
    else join? (Char.ofNat n :: done) (.unit m :: rest)
  | .unit n :: rest =>
    if isHighUnit n || isLowUnit n then none else join? (Char.ofNat n :: done) rest

def string? (cs : List Char) : Option (Json × List Char) :=
  match pieces? [] cs with
  | some (ps, rest) => (join? [] ps).map fun s => (.text s, rest)
  | none => none

/-! ## Numbers -/

def digitValue (c : Char) : Nat := c.toNat - 48

/-- Appends digits to `s` while the result fits in 64 bits; returns it
with the digits left over. -/
def absorb (s : Nat) : List Char → Nat × List Char
  | [] => (s, [])
  | d :: ds =>
    let next := s * 10 + digitValue d
    if next < UInt64.size then absorb next ds else (s, d :: ds)

/-- The parts of a number literal. -/
structure Literal where
  negative : Bool
  whole : List Char
  fraction : Option (List Char)
  exponent : Option Int

/-- A run of digits that is not empty, and what follows it. -/
def digits? (cs : List Char) : Option (List Char × List Char) :=
  match cs.span Char.isDigit with
  | ([], _) => none
  | (ds, rest) => some (ds, rest)

def fraction? : List Char → Option (Option (List Char) × List Char)
  | '.' :: rest => (digits? rest).map fun (ds, rest) => (some ds, rest)
  | cs => some (none, cs)

def decimal (ds : List Char) : Nat := ds.foldl (fun n d => n * 10 + digitValue d) 0

def signed? : List Char → Option (Int × List Char)
  | '+' :: rest => (digits? rest).map fun (ds, rest) => ((decimal ds : Int), rest)
  | '-' :: rest => (digits? rest).map fun (ds, rest) => (-(decimal ds : Int), rest)
  | cs => (digits? cs).map fun (ds, rest) => ((decimal ds : Int), rest)

def exponent? : List Char → Option (Option Int × List Char)
  | 'e' :: rest => (signed? rest).map fun (n, rest) => (some n, rest)
  | 'E' :: rest => (signed? rest).map fun (n, rest) => (some n, rest)
  | cs => some (none, cs)

/-- A literal whose sign has been read. -/
def unsigned? (negative : Bool) (cs : List Char) : Option (Literal × List Char) := do
  let (whole, rest) ← digits? cs
  if whole.head? = some '0' ∧ whole.length ≠ 1 then none
  else
    let (fraction, rest) ← fraction? rest
    let (exponent, rest) ← exponent? rest
    some (⟨negative, whole, fraction, exponent⟩, rest)

def literal? : List Char → Option (Literal × List Char)
  | '-' :: rest => unsigned? true rest
  | cs => unsigned? false cs

/-- The number of a literal: whole if it is written as a whole number
that fits in 64 bits and is not `-0`, else a double. -/
def Literal.number? (l : Literal) : Option JsonNumber :=
  let (significand, extra) := absorb 0 l.whole
  let isWhole := l.fraction.isNone && l.exponent.isNone && extra.isEmpty
  if isWhole && !l.negative then some (.whole significand)
  else if isWhole && 0 < significand && significand ≤ Nat.pow 2 63 then some (.whole (-significand))
  else
    let places := l.fraction.getD []
    let (significand, dropped) := absorb significand places
    let scale : Int := extra.length - (places.length - dropped.length : Nat) + l.exponent.getD 0
    (Magnitude.ofDecimal? significand scale).map fun m => .double ⟨l.negative, m⟩

def number? (cs : List Char) : Option (Json × List Char) :=
  match literal? cs with
  | some (l, rest) => l.number?.map fun n => (.number n, rest)
  | none => none

/-! ## Tokens -/

def isSpace (c : Char) : Bool :=
  c = ' ' || c = '\t' || c = '\n' || c = '\r'

def punctuation? : Char → Option Token
  | '[' => some .openArray
  | ']' => some .closeArray
  | '\x7b' => some .openObject
  | '\x7d' => some .closeObject
  | ':' => some .colon
  | ',' => some .comma
  | _ => none

/-- A scalar at the front of a text, and what follows it. -/
def scalar? : List Char → Option (Json × List Char)
  | '"' :: rest => string? rest
  | 'n' :: 'u' :: 'l' :: 'l' :: rest => some (.null, rest)
  | 't' :: 'r' :: 'u' :: 'e' :: rest => some (.bool true, rest)
  | 'f' :: 'a' :: 'l' :: 's' :: 'e' :: rest => some (.bool false, rest)
  | cs => number? cs

/-- Scans at most `fuel` tokens and blanks; each takes a character at
least, so that the length of the text is enough. -/
def scanWith (done : List Token) : Nat → List Char → Option (List Token)
  | _, [] => some done.reverse
  | 0, _ :: _ => none
  | fuel + 1, c :: rest =>
    if isSpace c then scanWith done fuel rest
    else match punctuation? c with
      | some t => scanWith (t :: done) fuel rest
      | none =>
        match scalar? (c :: rest) with
        | some (v, rest) => scanWith (.scalar v :: done) fuel rest
        | none => none

/-- The tokens of a text, or `none` if some part of it is no token. -/
def scan (cs : List Char) : Option (List Token) := scanWith [] cs.length cs

end Token

end BehaviorScript
