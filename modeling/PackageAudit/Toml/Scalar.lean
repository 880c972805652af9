/-
Numbers, truth values and points in time of a TOML document.
-/
import PackageAudit.Toml.Text
import PackageAudit.Toml.Value

namespace PackageAudit.Toml

/-! ### Digits -/

/-- The value of a digit in a base. -/
def digit? (base : Nat) (c : Char) : Option Nat :=
  (hexDigit? c).filter (· < base)

/-- Whether a character is a digit in a base. -/
def isDigit (base : Nat) (c : Char) : Bool := (digit? base c).isSome

/-- The number that digits write in a base. -/
def number (base : Nat) (digits : List Char) : Nat :=
  digits.foldl (fun n c => n * base + (digit? base c).getD 0) 0

/-- Reads digits in a base, with single underscores between them; the underscores are dropped. -/
def digits (base : Nat) : Reader (List Char) :=
  Reader.separated (Reader.satisfy (isDigit base))
    (do let _ ← Reader.optional (Reader.char '_'))

/-- Reads a sign, if there is one.  The result says whether it is a minus. -/
def sign : Reader Bool :=
  (do
    Reader.char '-'
    return true)
  <|> (do
    Reader.char '+'
    return false)
  <|> pure false

/-- Reads digits in base ten that do not start with a needless zero. -/
def plainDigits : Reader (List Char) :=
  (do
    let c ← Reader.satisfy (· == '0')
    return [c])
  <|> digits 10

/-! ### Integers -/

/-- Whether a number is an integer of 64 bits. -/
def fits (n : Int) : Bool := -9223372036854775808 ≤ n && n ≤ 9223372036854775807

/-- Reads an integer behind the mark of its base. -/
def markedInteger (mark : Char) (base : Nat) : Reader Int := do
  Reader.literal ['0', mark]
  let ds ← digits base
  return number base ds

/-- Reads a decimal integer. -/
def decimalInteger : Reader Int := do
  let negative ← sign
  let ds ← plainDigits
  let n : Int := number 10 ds
  return if negative then -n else n

/-- Reads an integer, which must have at most 64 bits. -/
def integer : Reader TomlValue := do
  let n ← markedInteger 'x' 16 <|> markedInteger 'o' 8 <|> markedInteger 'b' 2 <|> decimalInteger
  if fits n then return .integer n else failure

/-! ### Floating-point numbers -/

/-- Half a step beyond the greatest finite number of double precision.  From here on numbers are
too great for it. -/
def doubleLimit : Nat := Nat.pow 2 1024 - Nat.pow 2 970

/-- Whether `mantissa · 10 ^ exponent` is too great for a number of double precision. -/
def exceedsDouble (mantissa : Nat) (exponent : Int) : Bool :=
  if mantissa = 0 then false
  else
    let magnitude : Int := (Nat.toDigits 10 mantissa).length + exponent
    if magnitude > 310 then true
    else if magnitude < 308 then false
    else match exponent with
      | .ofNat e => doubleLimit ≤ mantissa * Nat.pow 10 e
      | .negSucc e => doubleLimit * Nat.pow 10 (e + 1) ≤ mantissa

/-- Reads an exponent. -/
def exponent : Reader Int := do
  let _ ← Reader.satisfy fun c => c == 'e' || c == 'E'
  let negative ← sign
  let ds ← digits 10
  let n : Int := number 10 ds
  return if negative then -n else n

/-- Reads the digits behind a decimal point. -/
def fraction : Reader (List Char) := do
  Reader.char '.'
  digits 10

/-- Reads a floating-point number in digits: behind the integer part there is a fraction, an
exponent or both.  A positive number must not be too great. -/
def digitFloat : Reader TomlValue := do
  let negative ← sign
  let whole ← plainDigits
  let part ← (some <$> fraction) <|> pure none
  let power ← if part.isSome then Reader.optional exponent else some <$> exponent
  let places := (part.getD []).length
  let mantissa := number 10 (whole ++ part.getD [])
  if !negative && exceedsDouble mantissa (power.getD 0 - places) then failure
  else return .float (String.ofList (whole ++ '.' :: part.getD []))

/-- Reads infinity or the number that is none. -/
def namedFloat : Reader TomlValue := do
  let _ ← sign
  (do
    Reader.literal ['i', 'n', 'f']
    return .float "inf")
  <|> (do
    Reader.literal ['n', 'a', 'n']
    return .float "nan")

/-! ### Truth values -/

/-- Reads a truth value. -/
def truth : Reader TomlValue :=
  (do
    Reader.literal ['t', 'r', 'u', 'e']
    return .bool true)
  <|> (do
    Reader.literal ['f', 'a', 'l', 's', 'e']
    return .bool false)

/-! ### Points in time -/

/-- Reads a number of exactly `width` digits within bounds. -/
def fixedNumber (width least greatest : Nat) : Reader Nat := do
  let ds ← Reader.exactly (isDigit 10) width
  let n := number 10 ds
  if least ≤ n && n ≤ greatest then return n else failure

/-- The number of days of a month. -/
def daysOfMonth (year month : Nat) : Nat :=
  if month = 2 then
    if year % 4 = 0 && (year % 100 ≠ 0 || year % 400 = 0) then 29 else 28
  else if month = 4 || month = 6 || month = 9 || month = 11 then 30
  else 31

/-- Reads a date. -/
def date : Reader Unit := do
  let year ← fixedNumber 4 0 9999
  Reader.char '-'
  let month ← fixedNumber 2 1 12
  Reader.char '-'
  let _ ← fixedNumber 2 1 (daysOfMonth year month)

/-- Reads a time of day.  The last second of a day may be a leap second. -/
def timeOfDay : Reader Unit := do
  let _ ← fixedNumber 2 0 23
  Reader.char ':'
  let _ ← fixedNumber 2 0 59
  Reader.char ':'
  let _ ← fixedNumber 2 0 60
  let _ ← Reader.optional do
    Reader.char '.'
    let _ ← Reader.satisfy (isDigit 10)
    Reader.takeWhile (isDigit 10)

/-- Reads the offset of a time zone. -/
def zoneOffset : Reader Unit :=
  (do let _ ← Reader.satisfy fun c => c == 'Z' || c == 'z')
  <|> (do
    let _ ← Reader.satisfy fun c => c == '+' || c == '-'
    let _ ← fixedNumber 2 0 23
    Reader.char ':'
    let _ ← fixedNumber 2 0 59)

/-- Reads a date with or without a time, or a time. -/
def momentForm : Reader Unit :=
  (do
    date
    let _ ← Reader.optional do
      let _ ← Reader.satisfy fun c => c == 'T' || c == 't' || c == ' '
      timeOfDay
      Reader.optional zoneOffset)
  <|> timeOfDay

/-- Reads a point in time. -/
def moment : Reader TomlValue := fun input =>
  match momentForm input with
  | none => none
  | some (_, rest) =>
    some (.moment (String.ofList (input.take (input.length - rest.length))), rest)

/-- Reads a value that has no parts. -/
def scalar : Reader TomlValue :=
  (TomlValue.string <$> string) <|> truth <|> moment <|> digitFloat <|> namedFloat <|> integer

end PackageAudit.Toml
