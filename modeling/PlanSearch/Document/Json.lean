/-
Documents written as JSON.

Reading takes one value and the blanks around it. A number without point
and exponent is an integer as long as it fits 64 bits, signed or
unsigned; any other number is floating point. A key written twice keeps
its last value.
-/
import PlanSearch.Document.Basic
import PlanSearch.Decimal.Shortest

namespace PlanSearch.Json

def isSpace (c : Char) : Bool := c == ' ' || c == '\n' || c == '\r' || c == '\t'

def skipSpace (s : List Char) : List Char := s.dropWhile isSpace

def hexValue? (c : Char) : Option Nat :=
  if '0' ≤ c ∧ c ≤ '9' then some (c.toNat - 48)
  else if 'a' ≤ c ∧ c ≤ 'f' then some (c.toNat - 87)
  else if 'A' ≤ c ∧ c ≤ 'F' then some (c.toNat - 55)
  else none

/-- The code unit of four hexadecimal digits. -/
def readUnit : List Char → Option (Nat × List Char)
  | a :: b :: c :: d :: rest => do
    let a ← hexValue? a
    let b ← hexValue? b
    let c ← hexValue? c
    let d ← hexValue? d
    some (((a * 16 + b) * 16 + c) * 16 + d, rest)
  | _ => none

/-- Reads the rest of a quoted text into `done`, which is reversed. -/
def readQuoted : Nat → List Char → List Char → Option (String × List Char)
  | 0, _, _ => none
  | _ + 1, _, [] => none
  | _ + 1, done, '"' :: rest => some (String.ofList done.reverse, rest)
  | fuel + 1, done, '\\' :: c :: rest =>
    match c with
    | '"' => readQuoted fuel ('"' :: done) rest
    | '\\' => readQuoted fuel ('\\' :: done) rest
    | '/' => readQuoted fuel ('/' :: done) rest
    | 'b' => readQuoted fuel ('\x08' :: done) rest
    | 'f' => readQuoted fuel ('\x0c' :: done) rest
    | 'n' => readQuoted fuel ('\n' :: done) rest
    | 'r' => readQuoted fuel ('\r' :: done) rest
    | 't' => readQuoted fuel ('\t' :: done) rest
    | 'u' =>
      match readUnit rest with
      | none => none
      | some (high, rest) =>
        if 0xd800 ≤ high ∧ high < 0xdc00 then
          match rest with
          | '\\' :: 'u' :: more =>
            match readUnit more with
            | none => none
            | some (low, rest) =>
              if 0xdc00 ≤ low ∧ low < 0xe000 then
                readQuoted fuel
                  (Char.ofNat (0x10000 + (high - 0xd800) * 0x400
                    + (low - 0xdc00)) :: done) rest
              else none
          | _ => none
        else if 0xdc00 ≤ high ∧ high < 0xe000 then none
        else readQuoted fuel (Char.ofNat high :: done) rest
    | _ => none
  | fuel + 1, done, c :: rest =>
    if c.toNat < 32 then none else readQuoted fuel (c :: done) rest

def isDigit (c : Char) : Bool := '0' ≤ c && c ≤ '9'

/-- The value of decimal digits. -/
def digitsValue (ds : List Char) : Nat :=
  ds.foldl (fun n c => n * 10 + (c.toNat - 48)) 0

/-- Reads an exponent, if one is written. -/
def readExponent : List Char → Option (Option Int × List Char)
  | c :: rest =>
    if c = 'e' ∨ c = 'E' then
      let (negative, rest) := match rest with
        | '-' :: r => (true, r)
        | '+' :: r => (false, r)
        | r => (false, r)
      let ds := rest.takeWhile isDigit
      if ds.isEmpty then none
      else
        let e : Int := digitsValue ds
        some (some (if negative then -e else e), rest.dropWhile isDigit)
    else some (none, c :: rest)
  | [] => some (none, [])

/-- Reads a number. -/
def readNumber (s : List Char) : Option (Document × List Char) :=
  let (negative, s) := match s with
    | '-' :: r => (true, r)
    | r => (false, r)
  let whole := s.takeWhile isDigit
  let rest := s.dropWhile isDigit
  if whole.isEmpty || (whole.length > 1 && whole.head? == some '0') then none
  else do
    let (fraction, rest) ← match rest with
      | '.' :: r =>
        let ds := r.takeWhile isDigit
        if ds.isEmpty then none else some (some ds, r.dropWhile isDigit)
      | r => some (none, r)
    let (exponent, rest) ← readExponent rest
    let n := digitsValue whole
    if fraction.isNone && exponent.isNone && !(negative && n == 0) &&
        (if negative then n ≤ 9223372036854775808
            else n < 18446744073709551616) then
      some (.int (if negative then -(n : Int) else n), rest)
    else
      let ds := fraction.getD []
      some (.float (Binary64.ofDecimal negative (digitsValue (whole ++ ds))
        (exponent.getD 0 - ds.length)), rest)

/-- Puts an entry at its key's place, or at the end. -/
def putEntry (key : String) (value : Document) :
    List (String × Document) → List (String × Document)
  | [] => [(key, value)]
  | e :: rest =>
      if e.1 == key then (key, value) :: rest else e :: putEntry key value rest

mutual

/-- Reads one value after leading blanks. -/
def readValue : Nat → List Char → Option (Document × List Char)
  | 0, _ => none
  | fuel + 1, s =>
    match skipSpace s with
    | '{' :: rest =>
      match skipSpace rest with
      | '}' :: rest => some (.table [], rest)
      | rest => readEntries fuel [] rest
    | '[' :: rest =>
      match skipSpace rest with
      | ']' :: rest => some (.list [], rest)
      | rest => readItems fuel [] rest
    | '"' :: rest =>
        (readQuoted (rest.length + 1) [] rest).map fun (t, r) => (.text t, r)
    | 't' :: 'r' :: 'u' :: 'e' :: rest => some (.bool true, rest)
    | 'f' :: 'a' :: 'l' :: 's' :: 'e' :: rest => some (.bool false, rest)
    | 'n' :: 'u' :: 'l' :: 'l' :: rest => some (.null, rest)
    | rest => readNumber rest

/-- Reads the items of a list up to its bracket. -/
def readItems : Nat → List Document → List Char → Option (Document × List Char)
  | 0, _, _ => none
  | fuel + 1, done, s =>
    match readValue fuel s with
    | none => none
    | some (item, rest) =>
      match skipSpace rest with
      | ',' :: rest => readItems fuel (item :: done) rest
      | ']' :: rest => some (.list (item :: done).reverse, rest)
      | _ => none

/-- Reads the entries of a table up to its brace. -/
def readEntries : Nat → List (String × Document) → List Char →
    Option (Document × List Char)
  | 0, _, _ => none
  | fuel + 1, done, s =>
    match skipSpace s with
    | '"' :: rest =>
      match readQuoted (rest.length + 1) [] rest with
      | none => none
      | some (key, rest) =>
        match skipSpace rest with
        | ':' :: rest =>
          match readValue fuel rest with
          | none => none
          | some (value, rest) =>
            match skipSpace rest with
            | ',' :: rest => readEntries fuel (putEntry key value done) rest
            | '}' :: rest => some (.table (putEntry key value done), rest)
            | _ => none
        | _ => none
    | _ => none

end

/-- Reads a whole text as one document. -/
def read (s : String) : Option Document :=
  let chars := s.toList
  match readValue (chars.length + 1) chars with
  | some (d, rest) => if (skipSpace rest).isEmpty then some d else none
  | none => none

-- ============================================================ writing

/-- The escape of a character inside quotes. -/
def escape (c : Char) : List Char :=
  if c = '"' then ['\\', '"']
  else if c = '\\' then ['\\', '\\']
  else if c = '\n' then ['\\', 'n']
  else if c.toNat < 32 then
    ['\\', 'u', '0', '0', Nat.digitChar (c.toNat / 16),
      Nat.digitChar (c.toNat % 16)]
  else [c]

def writeText (s : String) : String :=
  "\"" ++ String.ofList (s.toList.flatMap escape) ++ "\""

mutual

/-- Writes a document on one line; a number that is not finite becomes null. -/
def write : Document → String
  | .null => "null"
  | .bool b => if b then "true" else "false"
  | .int n => Text.ofInt n
  | .float x => if x.isFinite then Decimal.exact x else "null"
  | .text s => writeText s
  | .list items => "[" ++ ",".intercalate (writeItems items) ++ "]"
  | .table entries => "\x7b" ++ ",".intercalate (writeEntries entries) ++ "\x7d"

def writeItems : List Document → List String
  | [] => []
  | d :: rest => write d :: writeItems rest

def writeEntries : List (String × Document) → List String
  | [] => []
  | e :: rest => (writeText e.1 ++ ":" ++ write e.2) :: writeEntries rest

end

end PlanSearch.Json
