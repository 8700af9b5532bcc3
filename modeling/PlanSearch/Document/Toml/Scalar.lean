/-
The scalars of TOML: texts, integers, floating-point numbers and dates.

A text is quoted by one kind of quotes or the other, on one line by one
quote and on several by three. Integers are of 64 bits with a sign. A
number with a point or an exponent is floating point and must be below
infinity. A date or time is checked against the calendar and kept as a
table with one entry.
-/
import PlanSearch.Document.Scan

namespace PlanSearch.Toml

def isBlank (c : Char) : Bool := c == ' ' || c == '\t'

def skipBlank (s : List Char) : List Char := s.dropWhile isBlank

/-- The rest after the end of a line. -/
def newline? : List Char → Option (List Char)
  | '\n' :: rest => some rest
  | '\r' :: '\n' :: rest => some rest
  | _ => none

/-- Whether a character may stand in a text or comment as it is. -/
def isPrintable (c : Char) : Bool :=
  c == '\t' || (c.toNat ≥ 32 && c.toNat != 127)

-- ============================================================ texts

/-- The character of an escape, after the backslash. -/
def escape : Scan Char
  | 'b' :: rest => some ('\x08', rest)
  | 't' :: rest => some ('\t', rest)
  | 'n' :: rest => some ('\n', rest)
  | 'f' :: rest => some ('\x0c', rest)
  | 'r' :: rest => some ('\r', rest)
  | '"' :: rest => some ('"', rest)
  | '\\' :: rest => some ('\\', rest)
  | 'u' :: rest => Scan.codePoint 4 rest
  | 'U' :: rest => Scan.codePoint 8 rest
  | _ => none

/-- The rest of a text on one line, with escapes; `done` is reversed. -/
def basicRest : Nat → List Char → Scan String
  | 0, _, _ => none
  | _ + 1, _, [] => none
  | fuel + 1, done, c :: rest =>
    if c = '"' then some (String.ofList done.reverse, rest)
    else if c = '\\' then
      match escape rest with
      | some (e, rest) => basicRest fuel (e :: done) rest
      | none => none
    else if isPrintable c then basicRest fuel (c :: done) rest
    else none

/-- The rest of a text on one line, taken as it is. -/
def literalRest (s : List Char) : Option (String × List Char) :=
  let (body, rest) := Scan.while_ (fun c => c != '\'' && isPrintable c) s
  match rest with
  | '\'' :: rest => some (String.ofList body, rest)
  | _ => none

/-- The rest after line ends and blanks. -/
def skipLines : Nat → List Char → List Char
  | 0, s => s
  | fuel + 1, s =>
    let s := skipBlank s
    match newline? s with
    | some rest => skipLines fuel rest
    | none => s

/-- The rest of a text on several lines. A quote more than closes the text
belongs to it, and so do two. -/
def longRest (quote : Char) (escapes : Bool) : Nat → List Char → Scan String
  | 0, _, _ => none
  | _ + 1, _, [] => none
  | fuel + 1, done, c :: rest =>
    if c = quote then
      let (more, after) := Scan.while_ (· == quote) (c :: rest)
      if more.length < 3 then longRest quote escapes fuel (more ++ done) after
      else
        let extra := min (more.length - 3) 2
        some (String.ofList (done.reverse ++ List.replicate extra quote),
          (c :: rest).drop (3 + extra))
    else if escapes && c = '\\' then
      match escape rest with
      | some (e, rest) => longRest quote escapes fuel (e :: done) rest
      | none =>
        match newline? (skipBlank rest) with
        | some rest =>
            longRest quote escapes fuel done (skipLines rest.length rest)
        | none => none
    else match newline? (c :: rest) with
      | some rest => longRest quote escapes fuel ('\n' :: done) rest
      | none =>
          if isPrintable c then longRest quote escapes fuel (c :: done) rest
          else none

/-- The rest of a text on several lines; a line end at its front is dropped. -/
def longText (quote : Char) (escapes : Bool) (s : List Char) :
    Option (String × List Char) :=
  let s := (newline? s).getD s
  longRest quote escapes (s.length + 1) [] s

/-- A quoted text on one line. -/
def shortText : Scan String
  | '"' :: rest => basicRest (rest.length + 1) [] rest
  | '\'' :: rest => literalRest rest
  | _ => none

/-- A quoted text. -/
def text : Scan String
  | '"' :: '"' :: '"' :: rest => longText '"' true rest
  | '\'' :: '\'' :: '\'' :: rest => longText '\'' false rest
  | s => shortText s

-- ============================================================ dates

/-- A number of a fixed count of digits within bounds. -/
def fixed (places low high : Nat) (s : List Char) : Option (Nat × List Char) :=
  let ds := s.take places
  if ds.length = places && ds.all Json.isDigit then
    let n := Json.digitsValue ds
    if low ≤ n && n ≤ high then some (n, s.drop places) else none
  else none

def isLeapYear (year : Nat) : Bool :=
  year % 4 == 0 && (year % 100 != 0 || year % 400 == 0)

def daysIn (year month : Nat) : Nat :=
  if month = 2 then if isLeapYear year then 29 else 28
  else if month = 4 ∨ month = 6 ∨ month = 9 ∨ month = 11 then 30
  else 31

def expect (c : Char) : List Char → Option (List Char)
  | d :: rest => if d = c then some rest else none
  | [] => none

/-- The rest after a date. -/
def afterDate (s : List Char) : Option (List Char) := do
  let (year, s) ← fixed 4 0 9999 s
  let (month, s) ← fixed 2 1 12 (← expect '-' s)
  let (_, s) ← fixed 2 1 (daysIn year month) (← expect '-' s)
  return s

/-- The rest after a time of the day. -/
def afterTime (s : List Char) : Option (List Char) := do
  let (_, s) ← fixed 2 0 23 s
  let (_, s) ← fixed 2 0 59 (← expect ':' s)
  let (_, s) ← fixed 2 0 60 (← expect ':' s)
  match s with
  | '.' :: rest =>
    let (ds, rest) := Scan.while_ Json.isDigit rest
    if ds.isEmpty then none else return rest
  | s => return s

/-- The rest after an offset from universal time, which may be missing. -/
def afterOffset (s : List Char) : Option (List Char) :=
  match s with
  | c :: rest =>
    if c = 'Z' ∨ c = 'z' then some rest
    else if c = '+' ∨ c = '-' then do
      let (_, s) ← fixed 2 0 23 rest
      let (_, s) ← fixed 2 0 59 (← expect ':' s)
      return s
    else some s
  | [] => some []

/-- A date with or without a time, or a time. -/
def date (s : List Char) : Option (Document × List Char) :=
  match afterDate s with
  | some rest =>
    match rest with
    | c :: more =>
      if c = 'T' ∨ c = 't' ∨ c = ' ' then
        match afterTime more with
        | some rest => (afterOffset rest).map (dated s)
        | none => some (dated s rest)
      else some (dated s rest)
    | [] => some (dated s rest)
  | none => (afterTime s).map (dated s)
where
  dated (s rest : List Char) : Document × List Char :=
    (.table [("date", .text (String.ofList (s.take (s.length - rest.length))))],
      rest)

-- ============================================================ numbers

/-- An integer, if it has 64 bits. -/
def integer (n : Int) : Option Document :=
  if Checked.fitsLevel n then some (.int n) else none

/-- An exponent after its letter. -/
def exponent (s : List Char) : Option (Int × List Char) :=
  let (negative, s) := match s with
    | '-' :: r => (true, r)
    | '+' :: r => (false, r)
    | r => (false, r)
  (Scan.underscored Json.isDigit s).map fun (ds, rest) =>
    let e : Int := Json.digitsValue ds
    (if negative then -e else e, rest)

/-- What follows the whole part of a decimal number: digits after the
point, if there is one, and the exponent, if there is one. -/
def fraction (s : List Char) :
    Option ((List Char × Option Int) × List Char) := do
  let (ds, s) ← match s with
    | '.' :: rest => Scan.underscored Json.isDigit rest
    | s => some ([], s)
  match s with
  | c :: rest =>
    if c = 'e' ∨ c = 'E' then
      let (e, rest) ← exponent rest
      return ((ds, some e), rest)
    else return ((ds, none), s)
  | [] => return ((ds, none), s)

/-- A number in decimal. There is no zero before other digits. -/
def decimal (negative : Bool) (s : List Char) :
    Option (Document × List Char) := do
  let (whole, s) ← match s with
    | '0' :: rest => some (['0'], rest)
    | s => Scan.underscored Json.isDigit s
  let isFloat := match s with
    | c :: _ => c = '.' || c = 'e' || c = 'E'
    | [] => false
  if isFloat then
    let ((ds, e), s) ← fraction s
    let x := Binary64.ofDecimal negative (Json.digitsValue (whole ++ ds))
      (e.getD 0 - ds.length)
    if x.bits == Binary64.infinity.bits then none else return (.float x, s)
  else
    let n : Int := Json.digitsValue whole
    return (← integer (if negative then -n else n), s)

/-- The rest of an integer of another base. -/
def based (base : Nat) (isDigit : Char → Bool) (s : List Char) :
    Option (Document × List Char) := do
  let (ds, s) ← Scan.underscored isDigit s
  return (← integer (Scan.valueIn base ds), s)

/-- Infinity or no number, after the sign. -/
def special (negative : Bool) : Scan Document
  | 'i' :: 'n' :: 'f' :: rest =>
    some (.float (if negative then .negativeInfinity else .infinity), rest)
  | 'n' :: 'a' :: 'n' :: rest => some (.float .nan, rest)
  | _ => none

/-- A number without its sign. -/
def unsigned (negative : Bool) (s : List Char) :
    Option (Document × List Char) :=
  match special negative s with
  | some result => some result
  | none => decimal negative s

/-- A number. Only one without a sign may have another base. -/
def number : Scan Document
  | '+' :: rest => unsigned false rest
  | '-' :: rest => unsigned true rest
  | '0' :: 'x' :: rest => based 16 Scan.isHexDigit rest
  | '0' :: 'o' :: rest => based 8 Scan.isOctalDigit rest
  | '0' :: 'b' :: rest => based 2 Scan.isBinaryDigit rest
  | s => unsigned false s

/-- A scalar. -/
def scalar (s : List Char) : Option (Document × List Char) :=
  match s with
  | '"' :: _ => (text s).map fun (t, rest) => (.text t, rest)
  | '\'' :: _ => (text s).map fun (t, rest) => (.text t, rest)
  | 't' :: 'r' :: 'u' :: 'e' :: rest => some (.bool true, rest)
  | 'f' :: 'a' :: 'l' :: 's' :: 'e' :: rest => some (.bool false, rest)
  | s => (date s).or (number s)

end PlanSearch.Toml
