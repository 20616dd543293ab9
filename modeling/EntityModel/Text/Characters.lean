/-!
# Characters and lines

`isBlank` is the property `White_Space`.  A line ends at LF or CR LF; a lone CR ends none.

The other properties of characters that names depend on are tables of the Unicode standard.  A table
is a list of runs: code points at a fixed distance from each other.  Letters that alternate between
upper and lower case make one run of distance two.
-/

namespace EntityModel.Text

def isBlank (c : Char) : Bool :=
  let n := c.toNat
  (9 ≤ n && n ≤ 13) || n == 0x20 || n == 0x85 || n == 0xa0 || n == 0x1680
    || (0x2000 ≤ n && n ≤ 0x200a) || n == 0x2028 || n == 0x2029 || n == 0x202f || n == 0x205f
    || n == 0x3000

def trimStart (cs : List Char) : List Char := cs.dropWhile isBlank

def trim (cs : List Char) : List Char := (trimStart (trimStart cs).reverse).reverse

/-- The lines after one that has begun with `line`, last character first.  A last line without a
break counts unless it is empty. -/
def linesFrom : List Char → List Char → List (List Char)
  | line, [] => if line.isEmpty then [] else [line.reverse]
  | line, '\n' :: rest =>
    match line with
    | '\r' :: line => line.reverse :: linesFrom [] rest
    | line => line.reverse :: linesFrom [] rest
  | line, c :: rest => linesFrom (c :: line) rest

/-- The lines of a text, without their breaks. -/
def lines (cs : List Char) : List (List Char) := linesFrom [] cs

/-! ### Runs of code points -/

/-- The code points `first`, `first + step`, …, up to `last`. -/
structure CodeRun where
  first : Nat
  last : Nat
  step : Nat
deriving Repr, DecidableEq

namespace CodeRun

def has (r : CodeRun) (n : Nat) : Bool :=
  r.first ≤ n && n ≤ r.last && (n - r.first) % r.step == 0

end CodeRun

/-- Membership in a table that starts beyond ASCII. -/
def inRuns (runs : List CodeRun) (c : Char) : Bool :=
  runs.any (·.has c.toNat)

end EntityModel.Text
