import EntityModel.Yaml.OneOne.Chars
import EntityModel.Yaml.PlainValue
import EntityModel.Yaml.Token

/-!
# Scalars as they are written

A text is written plain if it then reads as itself.  What would read as something other than text is
put into single quotes, a text of several lines into a literal block, and what cannot be seen is
escaped in double quotes.
-/

namespace EntityModel.Yaml.Written

open OneOne (isBreak)

/-! ### What a text consists of -/

/-- Can be written as it is. -/
def isPrintable (c : Char) : Bool :=
  let n := c.toNat
  n == 0x0a || (0x20 ≤ n && n ≤ 0x7e) || (0xa0 ≤ n && n != 0xfeff && n != 0xfffe && n != 0xffff)

/-- A gap, or nothing more. -/
def atGap : List Char → Bool
  | [] => true
  | c :: _ => c == ' ' || c == '\t' || c == '\x00' || isBreak c

/-- Starts with an indicator. -/
def startsWithIndicator : List Char → Bool
  | '-' :: '-' :: '-' :: _ => true
  | '.' :: '.' :: '.' :: _ => true
  | c :: rest =>
    "#,[]\x7b\x7d&*!|>'\"%@\x60".toList.contains c || ((c == '?' || c == ':' || c == '-')
      && atGap rest)
  | [] => false

/-- Holds `: ` or ` #` behind the character `before`. -/
def holdsIndicator (before : Char) : List Char → Bool
  | [] => false
  | c :: rest => (c == ':' && atGap rest) || (c == '#' && atGap [before]) || holdsIndicator c rest

/-- Holds two neighbours of which `p` is true. -/
def holdsPair (p : Char → Char → Bool) : List Char → Bool
  | a :: b :: rest => p a b || holdsPair p (b :: rest)
  | _ => false

/-- A space before a break. -/
def holdsSpaceBreak (cs : List Char) : Bool := holdsPair (fun a b => a == ' ' && isBreak b) cs

/-- A break before a space. -/
def holdsBreakSpace (cs : List Char) : Bool := holdsPair (fun a b => isBreak a && b == ' ') cs

/-- Can stand without escapes. -/
def isClear (cs : List Char) : Bool := cs.all isPrintable && !holdsSpaceBreak cs

def plainAllowed : List Char → Bool
  | [] => true
  | c :: rest =>
    let cs := c :: rest
    isClear cs && !cs.any isBreak && c != ' ' && cs.getLast? != some ' '
      && !startsWithIndicator cs && !holdsIndicator c rest

def singleAllowed (cs : List Char) : Bool := isClear cs && !holdsBreakSpace cs

def literalAllowed (cs : List Char) : Bool := isClear cs && cs.getLast? != some ' ' && !cs.isEmpty

/-- Would be read as something other than text. -/
def isAmbiguous (s : String) : Bool := PlainValue.ofText s != .text || PlainValue.isPadded s.toList

/-- The style that a text is written in. -/
def style (s : String) : ScalarStyle :=
  let cs := s.toList
  if cs.contains '\n' then (if literalAllowed cs then .literal else .doubleQuoted)
  else if !isAmbiguous s && plainAllowed cs then .plain
  else if singleAllowed cs then .singleQuoted
  else .doubleQuoted

/-! ### Texts in each style -/

/-- The text with two spaces in front of every line that holds something. -/
def indented : Bool → List Char → List Char
  | _, [] => []
  | fresh, c :: rest =>
    if isBreak c then c :: indented true rest
    else (if fresh then [' ', ' ', c] else [c]) ++ indented false rest

/-- A quote in single quotes is written twice. -/
def doubled (c : Char) : List Char := if c == '\'' then ['\'', '\''] else [c]

/-- Behind a break, a line of a single-quoted text starts with two spaces, the last one too. -/
def singleQuoted (cs : List Char) : List Char :=
  let body := (indented false cs).flatMap doubled
  let tail := if cs.getLast?.any isBreak then [' ', ' '] else []
  '\'' :: body ++ tail ++ ['\'']

/-- So many hexadecimal digits. -/
def hexDigits (width n : Nat) : List Char :=
  let digits := (Nat.toDigits 16 n).map Char.toUpper
  List.replicate (width - digits.length) '0' ++ digits

def escapeLetter? (c : Char) : Option Char :=
  match c with
  | '\x00' => some '0'
  | '\x07' => some 'a'
  | '\x08' => some 'b'
  | '\t' => some 't'
  | '\n' => some 'n'
  | '\x0b' => some 'v'
  | '\x0c' => some 'f'
  | '\r' => some 'r'
  | '\x1b' => some 'e'
  | '"' => some '"'
  | '\\' => some '\\'
  | '\u0085' => some 'N'
  | '\u2028' => some 'L'
  | '\u2029' => some 'P'
  | _ => none

def escaped (c : Char) : List Char :=
  if isPrintable c && !isBreak c && c != '"' && c != '\\' then [c]
  else match escapeLetter? c with
    | some letter => ['\\', letter]
    | none =>
      let n := c.toNat
      if n ≤ 0xff then '\\' :: 'x' :: hexDigits 2 n
      else if n ≤ 0xffff then '\\' :: 'u' :: hexDigits 4 n
      else '\\' :: 'U' :: hexDigits 8 n

def doubleQuoted (cs : List Char) : List Char := '"' :: cs.flatMap escaped ++ ['"']

/-- The header of a literal block: the indentation where the text hides it, and what becomes of the
breaks at the end. -/
def literalHeader (cs : List Char) : List Char :=
  let indentation := if cs.head?.any fun c => c == ' ' || isBreak c then ['2'] else []
  let chomping :=
    match cs.reverse with
    | [] => ['-']
    | last :: before =>
      if !isBreak last then ['-']
      else match before with
        | [] => ['+']
        | c :: _ => if isBreak c then ['+'] else []
  '|' :: indentation ++ chomping

def literal (cs : List Char) : List Char := literalHeader cs ++ '\n' :: indented true cs

/-- A text in its style, up to the end of its line. -/
def line (s : String) : String :=
  let cs := s.toList
  match style s with
  | .plain => s ++ "\n"
  | .singleQuoted => String.ofList (singleQuoted cs) ++ "\n"
  | .doubleQuoted => String.ofList (doubleQuoted cs) ++ "\n"
  | _ => String.ofList (literal cs) ++ if cs.getLast?.any isBreak then "" else "\n"

end EntityModel.Yaml.Written
