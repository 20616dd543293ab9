import EntityModel.Decimal.Binary64

/-!
# What a plain scalar stands for

A scalar without quotes may be nothing, a truth value or a number; all else is text.  Digits with a
zero in front of them are text, and so is a number beyond all doubles.
-/

namespace EntityModel.Yaml

inductive PlainValue
  | null
  | bool (b : Bool)
  | integer (n : Int)
  /-- A whole number that does not fit 64 bits. -/
  | wide (n : Int)
  | float (negative : Bool) (magnitude : String)
  | text
deriving Repr, DecidableEq

namespace PlainValue

def nullWords : List String := ["null", "Null", "NULL", "~"]

def bool? (s : String) : Option Bool :=
  if ["true", "True", "TRUE"].contains s then some true
  else if ["false", "False", "FALSE"].contains s then some false
  else none

def isSign (c : Char) : Bool := c == '+' || c == '-'

/-- Two digits or more, the first of them a zero, behind at most one sign. -/
def isPadded (cs : List Char) : Bool :=
  let cs := match cs with
    | c :: rest => if isSign c then rest else cs
    | [] => cs
  match cs with
  | '0' :: rest => !rest.isEmpty && rest.all Char.isDigit
  | _ => false

/-- The value of a letter or digit in bases up to sixteen. -/
def digit? (base : Nat) (c : Char) : Option Nat :=
  let n :=
    if c.isDigit then c.toNat - '0'.toNat
    else if 'a' ≤ c && c ≤ 'f' then c.toNat - 'a'.toNat + 10
    else if 'A' ≤ c && c ≤ 'F' then c.toNat - 'A'.toNat + 10
    else base
  if n < base then some n else none

def digits? (base : Nat) (cs : List Char) : Option Nat :=
  if cs.isEmpty then none
  else cs.foldlM (fun v c => (digit? base c).map (v * base + ·)) 0

/-- A number behind the mark of its base, or a decimal one. -/
def unsigned? : List Char → Option Nat
  | '0' :: 'x' :: rest => digits? 16 rest
  | '0' :: 'o' :: rest => digits? 8 rest
  | '0' :: 'b' :: rest => digits? 2 rest
  | cs => digits? 10 cs

/-- A whole number with at most one sign. -/
def integer? (cs : List Char) : Option Int :=
  if isPadded cs then none
  else match cs with
    | '+' :: rest => (unsigned? rest).map Int.ofNat
    | '-' :: rest => (unsigned? rest).map fun n => -Int.ofNat n
    | cs => (unsigned? cs).map Int.ofNat

/-- The whole numbers of a width: those of its signed and those of its unsigned form. -/
def limits (bits : Nat) (n : Int) : Bool :=
  -Int.ofNat (Nat.pow 2 (bits - 1)) ≤ n && n < Int.ofNat (Nat.pow 2 bits)

/-- Digits around a point, with an exponent or without: the digits and the power of ten. -/
def decimal? (cs : List Char) : Option (Nat × Int) :=
  let whole := cs.takeWhile Char.isDigit
  let rest := cs.dropWhile Char.isDigit
  let (part, rest) := match rest with
    | '.' :: r => (r.takeWhile Char.isDigit, r.dropWhile Char.isDigit)
    | r => ([], r)
  if whole.isEmpty && part.isEmpty then none
  else
    let value := (digits? 10 (whole ++ part)).getD 0
    let places : Int := part.length
    match rest with
    | [] => some (value, -places)
    | e :: power =>
      if e != 'e' && e != 'E' then none
      else
        let (negative, power) := match power with
          | '-' :: r => (true, r)
          | '+' :: r => (false, r)
          | r => (false, r)
        (digits? 10 power).map fun n => (value, (if negative then -(n : Int) else n) - places)

def floatWords : List String := [".inf", ".Inf", ".INF"]

/-- A number with a fraction or an exponent, or one of the three special values. -/
def float? (s : String) : Option PlainValue :=
  let (sign, rest) := match s.toList with
    | '+' :: r => (some '+', r)
    | '-' :: r => (some '-', r)
    | r => (none, r)
  let word := String.ofList rest
  let negative := sign == some '-'
  if floatWords.contains word then some (.float negative "inf")
  else if [".nan", ".NaN", ".NAN"].contains s then some (.float false "NaN")
  else match decimal? rest with
    | none => none
    | some (digits, power) => (Decimal.Binary64.ofDecimal digits power).map fun b =>
      .float negative b.text

def ofText (s : String) : PlainValue :=
  if s.isEmpty || nullWords.contains s then .null
  else match bool? s with
    | some b => .bool b
    | none =>
      let integer := (integer? s.toList).bind fun n =>
        if limits 64 n then some (integer n) else if limits 128 n then some (wide n) else none
      match integer with
      | some v => v
      | none => if isPadded s.toList then .text else (float? s).getD .text

end PlainValue

end EntityModel.Yaml
