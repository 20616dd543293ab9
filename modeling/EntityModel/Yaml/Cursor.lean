/-!
# A reading position in a YAML text

A cursor is what is left to read together with the mark of its first character.  Past the end every
look-ahead answers the null character, which no rule of the grammar accepts as content.
-/

namespace EntityModel.Yaml

/-- A place in a text: the characters before it as its lexer counts them, their bytes, the lines and
the columns. -/
structure Mark where
  index : Nat := 0
  bytes : Nat := 0
  line : Nat := 0
  column : Nat := 0
deriving Repr, DecidableEq, Inhabited

/-- What look-ahead sees past the end. -/
def endOfText : Char := '\x00'

structure Cursor where
  /-- The length of the whole text. -/
  size : Nat
  rest : List Char
  mark : Mark := {}
  /-- Only blanks were read on this line. -/
  leading : Bool := true
deriving Repr, Inhabited

namespace Cursor

/-- The start of a text. -/
def ofText (text : List Char) : Cursor := { size := text.length, rest := text }

def peek (c : Cursor) : Char := c.rest.headD endOfText

def peekAt (c : Cursor) (n : Nat) : Char := c.rest.getD n endOfText

/-- Enough fuel for a loop that reads a character in every round. -/
def fuel (c : Cursor) : Nat := c.size + 2

def byteSize (run : List Char) : Nat := run.foldl (fun n c => n + c.utf8Size) 0

/-- Past `n` blanks, which do not end the leading part of a line. -/
def skipBlanks (n : Nat) (c : Cursor) : Cursor :=
  { c with
    rest := c.rest.drop n
    mark :=
      { c.mark with
        index := c.mark.index + n
        bytes := c.mark.bytes + byteSize (c.rest.take n)
        column := c.mark.column + n } }

/-- Past one blank. -/
def skipBlank (c : Cursor) : Cursor := c.skipBlanks 1

/-- Past one character of content. -/
def skip (c : Cursor) : Cursor :=
  { c.skipBlank with leading := false }

def skipMany : Nat → Cursor → Cursor
  | 0, c => c
  | n + 1, c => skipMany n c.skip

/-- Past the break that stands here; CR LF is one break. -/
def skipBreak (c : Cursor) : Cursor :=
  let next (n : Nat) : Cursor :=
    { size := c.size
      rest := c.rest.drop n
      mark :=
        { index := c.mark.index + n
          bytes := c.mark.bytes + byteSize (c.rest.take n)
          line := c.mark.line + 1
          column := 0 }
      leading := true }
  if c.peek == '\r' && c.peekAt 1 == '\n' then next 2 else next 1

/-- Past all blanks accepted by `p`. -/
def skipBlanksWhile (p : Char → Bool) (c : Cursor) : Cursor :=
  c.skipBlanks (c.rest.takeWhile p).length

/-- The longest run of content accepted by `p`, and the cursor behind it. -/
def takeWhile (p : Char → Bool) (c : Cursor) : List Char × Cursor :=
  let run := c.rest.takeWhile p
  (run, { c.skipBlanks run.length with leading := c.leading && run.isEmpty })

end Cursor

end EntityModel.Yaml
