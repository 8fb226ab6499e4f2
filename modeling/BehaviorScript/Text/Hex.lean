/-!
# Hexadecimal text

Bytes and 16-bit words in base sixteen. Writing uses lower-case digits;
reading takes either case. `decode?` accepts exactly the texts with an
even number of hexadecimal digits and nothing else, and `encode` is its
right inverse (`decode?_encode`). Blanks around a text are trimmed
beforehand (`trimBlank`).
-/

namespace BehaviorScript

/-! ## Blanks -/

/-- Has the Unicode property `White_Space`. -/
def isBlank (c : Char) : Bool :=
  let n := c.toNat
  (9 ≤ n && n ≤ 13) || n == 0x20 || n == 0x85 || n == 0xA0 || n == 0x1680
    || (0x2000 ≤ n && n ≤ 0x200A) || n == 0x2028 || n == 0x2029 || n == 0x202F
    || n == 0x205F || n == 0x3000

/-- Drops blanks from both ends. -/
def trimBlank (cs : List Char) : List Char :=
  ((cs.dropWhile isBlank).reverse.dropWhile isBlank).reverse

namespace Hex

/-! ## Digits -/

/-- The lower-case digit of a value below sixteen. -/
def digit (n : Nat) : Char :=
  if n < 10 then Char.ofNat (48 + n) else Char.ofNat (87 + n)

/-- The value of a digit of either case. -/
def digitValue? (c : Char) : Option Nat :=
  if '0' ≤ c ∧ c ≤ '9' then some (c.toNat - 48)
  else if 'a' ≤ c ∧ c ≤ 'f' then some (c.toNat - 87)
  else if 'A' ≤ c ∧ c ≤ 'F' then some (c.toNat - 55)
  else none

/-! ## Bytes -/

def byteDigits (b : UInt8) : List Char :=
  [digit (b.toNat / 16), digit (b.toNat % 16)]

/-- Two digits, the high one first. -/
def byte (b : UInt8) : String := String.ofList (byteDigits b)

def encode (bytes : List UInt8) : String :=
  String.ofList (bytes.flatMap byteDigits)

/-- Reads pairs of digits. An odd digit at the end, or a character that
is no digit, refuses the whole text. -/
def decode? : List Char → Option (List UInt8)
  | [] => some []
  | [_] => none
  | hi :: lo :: rest =>
    match digitValue? hi, digitValue? lo, decode? rest with
    | some h, some l, some bytes => some (UInt8.ofNat (16 * h + l) :: bytes)
    | _, _, _ => none

/-! ## Words -/

/-- A word is shown as `0x` and four digits. -/
def word (w : UInt16) : String :=
  String.ofList ['0', 'x', digit (w.toNat / 4096), digit (w.toNat / 256 % 16),
    digit (w.toNat / 16 % 16), digit (w.toNat % 16)]

/-! ## Writing, then reading -/

theorem digitValue?_digit {n : Nat} (h : n < 16) : digitValue? (digit n) = some n := by
  have : ∀ m : Fin 16, digitValue? (digit m.val) = some m.val := by decide
  exact this ⟨n, h⟩

theorem decode?_encode (bytes : List UInt8) :
    decode? (encode bytes).toList = some bytes := by
  rw [encode, String.toList_ofList]
  induction bytes with
  | nil => rfl
  | cons b rest ih =>
    have hb : b.toNat < 256 := b.toNat_lt
    have hi := digitValue?_digit (n := b.toNat / 16) (by omega)
    have lo := digitValue?_digit (n := b.toNat % 16) (by omega)
    have value : 16 * (b.toNat / 16) + b.toNat % 16 = b.toNat := by omega
    simp only [List.flatMap_cons, byteDigits, List.cons_append, List.nil_append, decode?,
      hi, lo, ih, value, UInt8.ofNat_toNat]

end Hex

end BehaviorScript
