namespace SourceDocs.Config.Scalar

def isChar (c : Char) : Bool :=
  c.isAlphanum || c = '+' || c = '-' || c = '_' || c = '.' || c = ':'

-- Digits with single underscores between them; the digits alone, if they are well formed.
def digits? (isDigit : Char → Bool) : List Char → Option (List Char)
  | [] => none
  | [c] => if isDigit c then some [c] else none
  | c :: '_' :: rest => if isDigit c then (digits? isDigit rest).map (c :: ·) else none
  | c :: rest => if isDigit c then (digits? isDigit rest).map (c :: ·) else none

def ofDigits (base : Nat) (cs : List Char) : Nat :=
  let digit (c : Char) : Nat :=
    if c.isDigit then c.toNat - '0'.toNat else c.toLower.toNat - 'a'.toNat + 10
  cs.foldl (fun n c => n * base + digit c) 0

def isHexDigit (c : Char) : Bool :=
  c.isDigit || ('a' ≤ c.toLower && c.toLower ≤ 'f')

def withoutSign : List Char → List Char × Bool
  | '+' :: rest => (rest, false)
  | '-' :: rest => (rest, true)
  | cs => (cs, false)

def isDecimal (cs : List Char) : Bool :=
  match digits? Char.isDigit cs with
  | some ('0' :: _ :: _) => false
  | some _ => true
  | none => false

def integerBound : Nat :=
  0x8000000000000000

-- Integers of 64 bits; only decimal ones have a sign.
def isInteger (cs : List Char) : Bool :=
  let fits (base : Nat) (isDigit : Char → Bool) (cs : List Char) : Bool :=
    (digits? isDigit cs).any (ofDigits base · < integerBound)
  match cs with
  | '0' :: 'x' :: rest => fits 16 isHexDigit rest
  | '0' :: 'o' :: rest => fits 8 (fun c => '0' ≤ c && c ≤ '7') rest
  | '0' :: 'b' :: rest => fits 2 (fun c => c = '0' || c = '1') rest
  | _ =>
    let (rest, negative) := withoutSign cs
    isDecimal rest && (digits? Char.isDigit rest).any fun ds =>
      if negative then ofDigits 10 ds ≤ integerBound else ofDigits 10 ds < integerBound

-- The least decimal number that is rounded to infinity: half a unit in the last of 53 places above
-- the largest finite one.
def floatBound : Nat :=
  (Nat.pow 2 54 - 1) * Nat.pow 2 970

def overflows (digits : List Char) (exponent : Int) : Bool :=
  let digits := digits.dropWhile (· = '0')
  -- The number lies below ten to the `magnitude` and not below a tenth of that.
  let magnitude := digits.length + exponent
  if digits.isEmpty || magnitude < 309 then false
  else if 309 < magnitude then true
  else
    floatBound * Nat.pow 10 (-exponent).toNat ≤ ofDigits 10 digits * Nat.pow 10 exponent.toNat

def exponent? (cs : List Char) : Option Int :=
  let (rest, negative) := withoutSign cs
  (digits? Char.isDigit rest).map fun ds =>
    if negative then -(ofDigits 10 ds : Int) else ofDigits 10 ds

-- Numbers with a fraction or an exponent. Only a negative one may be too large to be finite.
def isReal (cs : List Char) : Bool :=
  let (rest, negative) := withoutSign cs
  let isMark (c : Char) : Bool := c = 'e' || c = 'E'
  let mantissa := rest.takeWhile (!isMark ·)
  let exponent := rest.drop mantissa.length
  let whole := mantissa.takeWhile (· ≠ '.')
  let fraction := mantissa.drop whole.length
  let fractionDigits :=
    match fraction with
    | [] => if exponent.isEmpty then none else some []
    | _ :: ds => digits? Char.isDigit ds
  let exponentValue :=
    match exponent with
    | [] => some 0
    | _ :: ds => exponent? ds
  match digits? Char.isDigit whole, fractionDigits, exponentValue with
  | some ws, some fs, some e =>
    isDecimal whole && (negative || !overflows (ws ++ fs) (e - fs.length))
  | _, _, _ => false

def isFloat (cs : List Char) : Bool :=
  let name := (withoutSign cs).1
  name = "inf".toList || name = "nan".toList || isReal cs

def number? (n : Nat) (cs : List Char) : Option (Nat × List Char) :=
  let ds := cs.take n
  if ds.length = n && ds.all Char.isDigit then some (ofDigits 10 ds, cs.drop n) else none

def daysIn (year month : Nat) : Nat :=
  if month = 2 then
    if year % 4 = 0 && (year % 100 ≠ 0 || year % 400 = 0) then 29 else 28
  else if month = 4 || month = 6 || month = 9 || month = 11 then 30
  else 31

def afterDate? (cs : List Char) : Option (List Char) := do
  let (year, rest) ← number? 4 cs
  let '-' :: rest := rest | none
  let (month, rest) ← number? 2 rest
  let '-' :: rest := rest | none
  let (day, rest) ← number? 2 rest
  guard (1 ≤ month && month ≤ 12 && 1 ≤ day && day ≤ daysIn year month)
  return rest

def afterTime? (cs : List Char) : Option (List Char) := do
  let (hour, rest) ← number? 2 cs
  let ':' :: rest := rest | none
  let (minute, rest) ← number? 2 rest
  let ':' :: rest := rest | none
  let (second, rest) ← number? 2 rest
  guard (hour ≤ 23 && minute ≤ 59 && second ≤ 60)
  match rest with
  | '.' :: c :: more => if c.isDigit then return more.dropWhile Char.isDigit else none
  | '.' :: [] => none
  | _ => return rest

def isOffset : List Char → Bool
  | [] => true
  | ['Z'] => true
  | ['z'] => true
  | c :: rest =>
    if c = '+' || c = '-' then
      match number? 2 rest with
      | some (hour, ':' :: rest) =>
        match number? 2 rest with
        | some (minute, []) => hour ≤ 23 && minute ≤ 59
        | _ => false
      | _ => false
    else
      false

def isDateOrTime (cs : List Char) : Bool :=
  match afterDate? cs with
  | some [] => true
  | some (c :: rest) => (c = 'T' || c = 't' || c = ' ') && (afterTime? rest).any isOffset
  | none => afterTime? cs = some []

-- No setting has such a value, so only its form counts.
def isValid (cs : List Char) : Bool :=
  isInteger cs || isFloat cs || isDateOrTime cs

-- A space may stand between a date and a time.
def split (cs : List Char) : List Char × List Char :=
  let word := cs.takeWhile isChar
  match cs.dropWhile isChar with
  | ' ' :: c :: rest =>
    if afterDate? word = some [] && c.isDigit then
      (word ++ ' ' :: (c :: rest).takeWhile isChar, (c :: rest).dropWhile isChar)
    else
      (word, ' ' :: c :: rest)
  | rest => (word, rest)

end SourceDocs.Config.Scalar
