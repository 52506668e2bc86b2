import SelfDb.Sqlite
import Mathlib.Data.Int.Log
import Mathlib.Data.Rat.Floor

/-! What a column of NUMERIC affinity makes of a TEXT, and the TEXT of a number. -/
namespace SelfDb

/-- Rounded to an integer, ties to even. -/
def roundEven (q : Rat) : Int :=
  let low := ⌊q⌋
  if q - low < 1 / 2 ∨ q - low = 1 / 2 ∧ low % 2 = 0 then low else low + 1

/-- The nearest double, where an infinity is `2 ^ 1024` or its negative. -/
def toDouble (q : Rat) : Rat :=
  let ulp : Rat := 2 ^ (max (Int.log 2 |q|) (-1022) - 52)
  max (-2 ^ 1024) (min (2 ^ 1024) (roundEven (q / ulp) * ulp))

/-! `sqlite3AtoF`. -/

def splitSign : List Char → Bool × List Char
  | '-' :: rest => (true, rest)
  | '+' :: rest => (false, rest)
  | rest => (false, rest)

def signed (negative : Bool) (value : Nat) : Int := if negative then -value else value

/-- A decimal literal. -/
structure Numeral where
  negative : Bool
  whole : List Char
  fraction : Option (List Char)
  exponent : Option Int

namespace Numeral

/-- What follows the digits: nothing, or an exponent of at least one digit. -/
def parseExponent : List Char → Option (Option Int)
  | [] => some none
  | c :: rest =>
    let (negative, digits) := splitSign rest
    if (c = 'e' ∨ c = 'E') ∧ digits ≠ [] ∧ digits.all Char.isDigit then
      some (some (signed negative (leadingDigits 0 digits)))
    else none

/-- What follows the sign. -/
def parseDigits (negative : Bool) (text : List Char) : Option Numeral := do
  let whole := text.takeWhile Char.isDigit
  let (fraction, rest) := match text.dropWhile Char.isDigit with
    | '.' :: rest => (some (rest.takeWhile Char.isDigit), rest.dropWhile Char.isDigit)
    | rest => (none, rest)
  let exponent ← parseExponent rest
  if whole = [] ∧ fraction.getD [] = [] then none else some ⟨negative, whole, fraction, exponent⟩

/-- A literal with any blanks around it. -/
def parse (text : List Char) : Option Numeral :=
  let body := ((text.dropWhile isSpace).reverse.dropWhile isSpace).reverse
  parseDigits (splitSign body).1 (splitSign body).2

def value (n : Numeral) : Rat :=
  let fraction := n.fraction.getD []
  signed n.negative (leadingDigits 0 (n.whole ++ fraction)) *
    10 ^ (n.exponent.getD 0 - fraction.length)

/-- An integer has neither a point nor an exponent. -/
def integer (n : Numeral) : Option Int :=
  if n.fraction = none ∧ n.exponent = none then some (signed n.negative (leadingDigits 0 n.whole))
  else none

end Numeral

/-- `sqlite3VdbeIntegerAffinity`: an integral REAL is stored as an INTEGER. -/
def Value.ofReal (r : Rat) : Value :=
  if r.den = 1 ∧ -2 ^ 63 < r.num ∧ r.num < 2 ^ 63 then .integer r.num else .real r

/-- What a column of NUMERIC affinity stores for a TEXT. -/
def Value.numeric (text : String) : Value :=
  match Numeral.parse text.toList with
  | none => .text text
  | some n =>
    match n.integer with
    | none => .ofReal (toDouble n.value)
    | some value => if SelfDb.Storable value then .integer value else .ofReal (toDouble n.value)

theorem Value.ofReal_storable (r : Rat) : (Value.ofReal r).Storable := by
  rw [Value.ofReal]
  split
  · rename_i bounds
    exact ⟨bounds.2.1.le, bounds.2.2⟩
  · trivial

theorem Value.numeric_storable (text : String) : (Value.numeric text).Storable := by
  rw [Value.numeric]
  split
  · trivial
  · split
    · exact Value.ofReal_storable _
    · split
      · assumption
      · exact Value.ofReal_storable _

/-! `sqlite3_column_text`. -/

/-- The 15 digits of a positive number and the exponent of the first, rounded half up. -/
def significant (q : Rat) : List Char × Int :=
  let e := Int.log 10 q
  let digits := ⌊q * 10 ^ (14 - e) + 1 / 2⌋.toNat
  if digits = 10 ^ 15 then (Nat.toDigits 10 (10 ^ 14), e + 1) else (Nat.toDigits 10 digits, e)

/-- Without the zeros at the end, but at least one digit. -/
def trimFraction (digits : List Char) : List Char :=
  match (digits.reverse.dropWhile (· = '0')).reverse with
  | [] => ['0']
  | digits => digits

/-- At least two digits. -/
def exponentText (e : Int) : List Char :=
  let digits := Nat.toDigits 10 e.natAbs
  (if e < 0 then '-' else '+') :: (List.replicate (2 - digits.length) '0' ++ digits)

/-- `%!.15g` of a positive number. -/
def positiveText (q : Rat) : List Char :=
  let (digits, e) := significant q
  if e < -4 ∨ 14 < e then
    digits.take 1 ++ '.' :: trimFraction (digits.drop 1) ++ 'e' :: exponentText e
  else if e < 0 then
    '0' :: '.' :: trimFraction (List.replicate (-e - 1).toNat '0' ++ digits)
  else digits.take (e.toNat + 1) ++ '.' :: trimFraction (digits.drop (e.toNat + 1))

/-- `%!.15g`. -/
def realText (value : Rat) : String :=
  let body := if value = 0 then "0.0".toList else if 2 ^ 1024 ≤ |value| then "Inf".toList
    else positiveText |value|
  .ofList (if value < 0 then '-' :: body else body)

/-- The bytes of a BLOB as they are; where they are not UTF-8, one character a byte. -/
def blobText (bytes : List UInt8) : String :=
  (String.fromUTF8? ⟨bytes.toArray⟩).getD (.ofList (bytes.map fun b => .ofNat b.toNat))

def Value.columnText : Value → Option String
  | null => none
  | integer value => some (toString value)
  | real value => some (realText value)
  | text value => some value
  | blob bytes => some (blobText bytes)

end SelfDb
