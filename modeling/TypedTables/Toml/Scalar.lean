import TypedTables.Text.Lines

/-!
The spellings of TOML's unquoted values: integers of 64 bits, floats, and RFC 3339 dates and times.
-/

namespace TypedTables.Toml

def isHexDigit (c : Char) : Bool :=
  c.isDigit || ('a' ≤ c && c ≤ 'f') || ('A' ≤ c && c ≤ 'F')

def digitValue (c : Char) : Nat :=
  if c.isDigit then c.toNat - '0'.toNat
  else if 'a' ≤ c && c ≤ 'f' then c.toNat - 'a'.toNat + 10
  else if 'A' ≤ c && c ≤ 'F' then c.toNat - 'A'.toNat + 10
  else 0

def numberOf (base : Nat) (digits : List Char) : Nat :=
  digits.foldl (fun n c => base * n + digitValue c) 0

def dropUnderscores (cs : List Char) : List Char := cs.filter (· != '_')

/-- The number that digits with underscores between them spell, or `limit` if that is less. -/
def numberUpTo (limit base : Nat) (digits : List Char) : Nat :=
  (dropUnderscores digits).foldl (fun n c => min limit (base * n + digitValue c)) 0

/-- Digits with single underscores between them. -/
def areDigits (isDigit : Char → Bool) (cs : List Char) : Bool :=
  (Text.cut '_' cs).all fun part => !part.isEmpty && part.all isDigit

def dropSign : List Char → List Char
  | '+' :: rest => rest
  | '-' :: rest => rest
  | cs => cs

/-- Decimal digits without a leading zero. -/
def isDecimal (cs : List Char) : Bool :=
  areDigits Char.isDigit cs && (cs == ['0'] || cs.head? != some '0')

/-- Whether digits spell a number of at most `max`. -/
def areUpTo (max base : Nat) (digits : List Char) : Bool := numberUpTo (max + 1) base digits ≤ max

def maxInteger : Nat := 0x7fffffffffffffff

def isInteger (cs : List Char) : Bool :=
  match cs with
  | '0' :: 'x' :: rest => areDigits isHexDigit rest && areUpTo maxInteger 16 rest
  | '0' :: 'o' :: rest =>
    areDigits (fun c => '0' ≤ c && c ≤ '7') rest && areUpTo maxInteger 8 rest
  | '0' :: 'b' :: rest => areDigits (fun c => c == '0' || c == '1') rest && areUpTo maxInteger 2 rest
  | '-' :: rest => isDecimal rest && areUpTo (maxInteger + 1) 10 rest
  | cs => isDecimal (dropSign cs) && areUpTo maxInteger 10 (dropSign cs)

/-- `cs` before and behind its first character with a property. -/
def cutAt (p : Char → Bool) (cs : List Char) : List Char × Option (List Char) :=
  let before := cs.takeWhile fun c => !p c
  match cs.drop before.length with
  | _ :: rest => (before, some rest)
  | [] => (before, none)

/-- The least number that rounds to no finite float of 64 bits. It lies half a step above the
greatest one, and a tie goes to the even neighbour, which would be the next power of two. -/
def leastOverflow : Nat := 1 <<< 1024 - 1 <<< 970

/-- How many decimal digits that number has. -/
def overflowPlaces : Nat := 309

/-- Whether digits with a point behind the first `places` of them spell a number that is too large.
The bound is an integer, so what stands behind the point does not matter. -/
def overflows (digits : List Char) (places : Int) : Bool :=
  let zeros := (digits.takeWhile (· == '0')).length
  let places := places - zeros
  match digits.drop zeros with
  | [] => false
  | digits =>
    overflowPlaces < places ||
      let whole := (digits ++ List.replicate places.toNat '0').take places.toNat
      leastOverflow ≤ numberOf 10 whole

/-- An exponent, cut off where its size makes no difference for a mantissa of this many digits. -/
def exponentOf (digitCount : Nat) (cs : List Char) : Int :=
  let size := numberUpTo (overflowPlaces + digitCount + 1) 10 (dropSign cs)
  if cs.head? == some '-' then -size else size

/-- A float in digits. A negative one may be of any size, others have to be finite. -/
def isDigitFloat (cs : List Char) : Bool :=
  let (mantissa, exponent) := cutAt (fun c => c == 'e' || c == 'E') (dropSign cs)
  let (whole, fraction) := cutAt (· == '.') mantissa
  let lead := dropUnderscores whole
  let digits := lead ++ dropUnderscores (fraction.getD [])
  let places := lead.length + exponentOf digits.length (exponent.getD [])
  (fraction.isSome || exponent.isSome) && isDecimal whole &&
    fraction.all (areDigits Char.isDigit) &&
    (exponent.all fun digits => areDigits Char.isDigit (dropSign digits)) &&
    (cs.head? == some '-' || !overflows digits places)

def isFloat (cs : List Char) : Bool :=
  let name := dropSign cs
  name == "inf".toList || name == "nan".toList || isDigitFloat cs

/-- The number that exactly `count` digits spell. -/
def fixedDigits? (count : Nat) (cs : List Char) : Option Nat :=
  if cs.length == count && cs.all Char.isDigit then some (numberOf 10 cs) else none

def isLeapYear (year : Nat) : Bool := year % 4 == 0 && (year % 100 != 0 || year % 400 == 0)

def daysOf (year month : Nat) : Nat :=
  if month == 2 then (if isLeapYear year then 29 else 28)
  else if month == 4 || month == 6 || month == 9 || month == 11 then 30
  else 31

/-- `YYYY-MM-DD`. -/
def isDate (cs : List Char) : Bool :=
  match Text.cut '-' cs with
  | [year, month, day] =>
    match fixedDigits? 4 year, fixedDigits? 2 month, fixedDigits? 2 day with
    | some year, some month, some day =>
      1 ≤ month && month ≤ 12 && 1 ≤ day && day ≤ daysOf year month
    | _, _, _ => false
  | _ => false

def below (count limit : Nat) (cs : List Char) : Bool :=
  (fixedDigits? count cs).any (· < limit)

/-- `HH:MM:SS`, perhaps with a fraction. -/
def isTime (cs : List Char) : Bool :=
  match Text.cut ':' cs with
  | [hour, minute, second] =>
    let (second, fraction) := cutAt (· == '.') second
    below 2 24 hour && below 2 60 minute && below 2 61 second &&
      fraction.all fun digits => !digits.isEmpty && digits.all Char.isDigit
  | _ => false

def isOffset (cs : List Char) : Bool :=
  match Text.cut ':' cs with
  | [hour, minute] => below 2 24 hour && below 2 60 minute
  | _ => false

/-- A time, perhaps with its distance from UTC. -/
def isZonedTime (cs : List Char) : Bool :=
  match cs.reverse with
  | 'Z' :: rest => isTime rest.reverse
  | 'z' :: rest => isTime rest.reverse
  | _ =>
    let (time, offset) := cutAt (fun c => c == '+' || c == '-') cs
    isTime time && offset.all isOffset

def isDateTime (cs : List Char) : Bool :=
  isTime cs ||
    match cutAt (fun c => c == 'T' || c == 't' || c == ' ') cs with
    | (date, none) => isDate date
    | (date, some time) => isDate date && isZonedTime time

def isNumber (cs : List Char) : Bool := isInteger cs || isFloat cs

end TypedTables.Toml
