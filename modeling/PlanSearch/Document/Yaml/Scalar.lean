/-
What a scalar of YAML stands for.

A plain scalar is nothing, a truth value, an integer, a floating-point
number or a text, whichever it can be first. Digits after a zero are no
number, and neither is anything with an infinite value that does not say
so. A quoted scalar is a text.
-/
import PlanSearch.Document.Yaml.Node

namespace PlanSearch.Yaml

def isNull (t : String) : Bool :=
  t == "" || t == "~" || ["null", "Null", "NULL"].contains t

def truth? (t : String) : Option Bool :=
  if ["true", "True", "TRUE"].contains t then some true
  else if ["false", "False", "FALSE"].contains t then some false
  else none

/-- Whether a text is digits after a zero, behind a sign or not. -/
def isZeroLed (s : List Char) : Bool :=
  let digits := match s with
    | '-' :: r => r
    | '+' :: r => r
    | r => r
  match digits with
  | '0' :: more => !more.isEmpty && more.all Json.isDigit
  | _ => false

/-- The value of digits of a base, if there is nothing else. -/
def digits? (base : Nat) (isDigit : Char → Bool) (s : List Char) : Option Nat :=
  if s.isEmpty || !s.all isDigit then none else some (Scan.valueIn base s)

/-- The value of an integer without its sign. -/
def magnitude? (s : List Char) : Option Nat :=
  match s with
  | '0' :: 'x' :: rest => digits? 16 Scan.isHexDigit rest
  | '0' :: 'o' :: rest => digits? 8 Scan.isOctalDigit rest
  | '0' :: 'b' :: rest => digits? 2 Scan.isBinaryDigit rest
  | s => if isZeroLed s then none else digits? 10 Json.isDigit s

/-- An integer of 128 bits. -/
def integer? (s : List Char) : Option Int :=
  match s with
  | '-' :: rest =>
    (magnitude? rest).bind fun n =>
      if n ≤ Nat.pow 2 127 then some (-(n : Int)) else none
  | '+' :: rest => bounded rest
  | rest => bounded rest
where
  bounded (s : List Char) : Option Int :=
    (magnitude? s).bind fun n =>
      if n < Nat.pow 2 128 then some (n : Int) else none

/-- A decimal number without its sign: digits with a point among them or
not, and an exponent or not. -/
def decimal? (negative : Bool) (s : List Char) : Option Binary64 := do
  let (whole, s) := Scan.while_ Json.isDigit s
  let (part, s) := match s with
    | '.' :: rest => Scan.while_ Json.isDigit rest
    | s => ([], s)
  if whole.isEmpty && part.isEmpty then none
  else
    let (e, s) ← Json.readExponent s
    let x := Binary64.ofDecimal negative (Json.digitsValue (whole ++ part))
      (e.getD 0 - part.length)
    if s.isEmpty && x.isFinite then return x else none

/-- A floating-point number. -/
def float? (t : String) : Option Binary64 :=
  if [".inf", ".Inf", ".INF", "+.inf", "+.Inf", "+.INF"].contains t then
    some .infinity
  else if ["-.inf", "-.Inf", "-.INF"].contains t then some .negativeInfinity
  else if [".nan", ".NaN", ".NAN"].contains t then some .nan
  else
    match t.toList with
    | '-' :: rest => decimal? true rest
    | '+' :: rest => decimal? false rest
    | rest => decimal? false rest

/-- What a plain scalar stands for. -/
def plainDocument (t : String) : Document :=
  if isNull t then .null
  else match truth? t with
    | some b => .bool b
    | none =>
      match integer? t.toList with
      | some n => .int n
      | none =>
        if isZeroLed t.toList then .text t
        else match float? t with
          | some x => .float x
          | none => .text t

/-- Whether an integer has 64 bits, with a sign or without. -/
def isWord (n : Int) : Bool :=
  -9223372036854775808 ≤ n && n < 18446744073709551616

/-- A document that is no integer of more than 64 bits. -/
def narrow? (d : Document) : Option Document :=
  match d with
  | .int n => if isWord n then some d else none
  | d => some d

/-- What a scalar with a tag stands for. A tag of one's own has no meaning. -/
def taggedDocument? (tag t : String) : Option Document :=
  let d := plainDocument t
  match tag, d with
  | "tag:yaml.org,2002:null", _ =>
      if isNull t && t != "" then some .null else none
  | "tag:yaml.org,2002:bool", _ => (truth? t).map .bool
  | "tag:yaml.org,2002:int", _ => (integer? t.toList).map .int
  | "tag:yaml.org,2002:float", _ => (float? t).map .float
  | tag, _ => if tag.startsWith "!" then none else some (.text t)

/-- Whether a tag is one's own. -/
def isLocal (tag : Option String) : Bool :=
  match tag with
  | some t => t.startsWith "!"
  | none => false

namespace Node

/-- The text of a scalar. -/
def text? : Node → Option String
  | scalar t _ _ => some t
  | _ => none

mutual

/-- What a node stands for. Keys are taken as they are written. -/
def document? : Node → Option Document
  | scalar t plain none =>
      if plain then narrow? (plainDocument t) else some (.text t)
  | scalar t _ (some tag) => (taggedDocument? tag t).bind narrow?
  | list items tag => if isLocal tag then none else (documents? items).map .list
  | table entries tag =>
      if isLocal tag then none else (entriesOf? entries).map .table
  | within => none

def documents? : List Node → Option (List Document)
  | [] => some []
  | n :: rest => do
    let d ← document? n
    let ds ← documents? rest
    return d :: ds

def entriesOf? : List (Node × Node) → Option (List (String × Document))
  | [] => some []
  | e :: rest => do
    let key ← text? e.1
    let d ← document? e.2
    let ds ← entriesOf? rest
    return (key, d) :: ds

end

end Node

end PlanSearch.Yaml
