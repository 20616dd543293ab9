import EntityModel.Yaml.OneTwo.Lexer

/-!
# Scalars of YAML 1.2

Plain and quoted scalars fold the breaks between their lines: one break is a space, and each further
one stays.  Block scalars keep their lines, or fold those that are not indented further.
-/

namespace EntityModel.Yaml.OneTwo

open Scan

/-- The breaks of a folded gap, read back. -/
def folded : Nat → List Char
  | 0 => []
  | 1 => [' ']
  | n + 2 => List.replicate (n + 1) '\n'

/-! ### Plain scalars -/

/-- The cursor is not at an indicator that ends a plain scalar. -/
def continuesPlain (flow : Bool) (c : Cursor) : Bool :=
  if c.peek == ':' then !(isGap (c.peekAt 1) || (flow && isFlow (c.peekAt 1)))
  else !(flow && isFlow c.peek)

/-- The run of characters up to a gap or an ending indicator. -/
def plainRun (flow : Bool) : Nat → Cursor → List Char × Cursor
  | 0, c => ([], c)
  | fuel + 1, c =>
    if !isGap c.peek && continuesPlain flow c then
      let (run, c') := plainRun flow fuel c.skip
      (c.peek :: run, c')
    else ([], c)

/-- The gap between two runs of a plain scalar: its blanks if it holds no break, else its breaks. -/
def plainGap (start : Mark) (indent : Int) : Nat → List Char → Nat → Read (List Char × Nat)
  | 0, blanks, breaks => pure (blanks, breaks)
  | fuel + 1, blanks, breaks => do
    let c ← cursor
    if isBlank c.peek then
      if breaks == 0 then
        move Cursor.skipBlank
        plainGap start indent fuel (blanks ++ [c.peek]) breaks
      else if (c.mark.column : Int) < indent && c.peek == '\t' then
        skipGap
        if !isBreakOrEnd (← peek) then fail .plainTab start
        plainGap start indent fuel blanks breaks
      else
        move Cursor.skipBlank
        plainGap start indent fuel blanks breaks
    else if isBreak c.peek then
      move Cursor.skipBreak
      plainGap start indent fuel [] (breaks + 1)
    else pure (blanks, breaks)

/-- The text of a plain scalar from the gap before its next run on; the second component tells
whether it ended in a gap with breaks. -/
def plainText (start : Mark) (indent : Int) :
    Nat → List Char → List Char → Nat → Read (List Char × Bool)
  | 0, text, _, breaks => pure (text, breaks > 0)
  | fuel + 1, text, blanks, breaks => do
    let c ← cursor
    let flow := (← get).flow > 0
    if atDocumentMarker c || c.peek == '#' then return (text, breaks > 0)
    if flow && c.peek == '-' && isFlow (c.peekAt 1) then failHere .plainDash
    let (run, c') := plainRun flow c.fuel c
    move fun _ => c'
    let (text, blanks, breaks) :=
      if run.isEmpty then (text, blanks, breaks)
      else (text ++ (if breaks > 0 then folded breaks else blanks) ++ run, [], 0)
    if !(isBlank c'.peek || isBreak c'.peek) then return (text, breaks > 0)
    let (blanks, breaks) ← plainGap start indent c'.fuel blanks breaks
    if !flow && ((← mark).column : Int) < indent then return (text, breaks > 0)
    plainText start indent fuel text blanks breaks

def plainScalar : Read Unit := do
  saveKey
  allowKey false
  unrollNonBlock
  let l ← get
  let indent := l.indent + 1
  let start := l.cursor.mark
  if l.flow > 0 && (start.column : Int) < indent then fail .plainFlowIndentation start
  let (text, broken) ← plainText start indent l.cursor.fuel [] [] 0
  if broken then allowKey true
  push (.scalar .plain (String.ofList text)) start

/-! ### Quoted scalars -/

/-- The character of the escape that starts at the backslash here. -/
def escape (start : Mark) : Read Char := do
  let letter ← peekAt 1
  match shortEscape? letter, escapeLength? letter with
  | some c, _ => move (Cursor.skipMany 2); return c
  | none, none => fail .escapeUnknown start
  | none, some n =>
    move (Cursor.skipMany 2)
    let digits := (List.range n).map (← cursor).peekAt
    if !digits.all isHex then fail .escapeDigits start
    match charOfCode? (digits.foldl (fun v d => v * 16 + hexValue d) 0) with
    | some c => move (Cursor.skipMany n); return c
    | none => fail .escapeCodePoint start

/-- The characters up to a gap or the closing quote; the second component tells whether an escaped
break ended them. -/
def quotedRun (single : Bool) (start : Mark) : Nat → Read (List Char × Bool)
  | 0 => pure ([], false)
  | fuel + 1 => do
    let c ← cursor
    let more (first : Char) : Read (List Char × Bool) := do
      let (run, escapedBreak) ← quotedRun single start fuel
      return (first :: run, escapedBreak)
    if isGap c.peek then return ([], false)
    else if single && c.peek == '\'' then
      if c.peekAt 1 == '\'' then
        move (Cursor.skipMany 2)
        more '\''
      else return ([], false)
    else if !single && c.peek == '"' then return ([], false)
    else if !single && c.peek == '\\' then
      if isBreak (c.peekAt 1) then
        move fun c => c.skip.skipBreak
        return ([], true)
      else more (← escape start)
    else
      skip
      more c.peek

/-- The gap in a quoted scalar: its blanks, whether a break was met, whether that was a plain one,
and how many breaks came after the first. -/
structure QuotedGap where
  blanks : List Char := []
  broken : Bool := false
  first : Bool := false
  further : Nat := 0

def QuotedGap.text (g : QuotedGap) : List Char :=
  if !g.broken then g.blanks
  else if g.first && g.further == 0 then [' ']
  else List.replicate g.further '\n'

def quotedGap : Nat → QuotedGap → Read QuotedGap
  | 0, g => pure g
  | fuel + 1, g => do
    let c ← cursor
    if isBlank c.peek then
      if g.broken then
        if c.peek == '\t' && (c.mark.column : Int) < (← get).indent then failHere .quotedTab
        move Cursor.skipBlank
        quotedGap fuel g
      else
        move Cursor.skipBlank
        quotedGap fuel { g with blanks := g.blanks ++ [c.peek] }
    else if isBreak c.peek then
      move Cursor.skipBreak
      if g.broken then quotedGap fuel { g with further := g.further + 1 }
      else quotedGap fuel { g with blanks := [], broken := true, first := true }
    else pure g

/-- The text between the quotes; the cursor is left on the closing one. -/
def quotedText (single : Bool) (start : Mark) : Nat → List Char → Read (List Char)
  | 0, text => pure text
  | fuel + 1, text => do
    let c ← cursor
    if atDocumentMarker c then fail .quotedMarker start
    if isEnd c.peek then fail .quotedEnd start
    if (c.mark.column : Int) < (← get).indent then fail .quotedIndentation start
    let (run, escapedBreak) ← quotedRun single start c.fuel
    let text := text ++ run
    if (← peek) == (if single then '\'' else '"') then return text
    let gap ← quotedGap (← cursor).fuel { broken := escapedBreak }
    quotedText single start fuel (text ++ gap.text)

def quotedScalar (single : Bool) : Read Unit := do
  saveKey
  allowKey false
  let start ← mark
  skip
  let text ← quotedText single start (← cursor).fuel []
  skip
  skipGap
  let l ← get
  let next := l.cursor.peek
  let fine :=
    isBreakOrEnd next
      || (next == ':' && (l.flow > 0 || start.line == l.cursor.mark.line))
      || (l.flow > 0 && (next == ',' || next == '}' || next == ']'))
  if !fine then failHere .quotedTrailing
  skipToToken l.cursor.fuel
  modify fun l => { l with adjacentAt := l.cursor.mark.index }
  push (.scalar (if single then .singleQuoted else .doubleQuoted) (String.ofList text)) start

/-! ### Block scalars -/

/-- The header behind `|` or `>`: chomping and the explicit indentation, in either order. -/
def blockHeader (start : Mark) : Read (Chomping × Nat) := do
  let chomping : Read Chomping := do
    match ← peek with
    | '+' => skip; return .keep
    | '-' => skip; return .strip
    | _ => return .clip
  let increment : Read Nat := do
    let c ← peek
    if c.isDigit then
      if c == '0' then fail .blockIndentZero start
      skip
      return c.toNat - '0'.toNat
    else return 0
  let first ← chomping
  let increment ← increment
  if first == .clip && increment > 0 then return (← chomping, increment)
  return (first, increment)

/-- Looks at the next `n` characters. -/
def lookAhead (n : Nat) : Read Unit :=
  modify fun l =>
    { l with seen := max l.seen (l.cursor.mark.bytes + Cursor.byteSize (l.cursor.rest.take n)) }

/-- What the characters of a run, which starts behind `offset` bytes, count beyond one each: those
that were not looked at before count by their bytes. -/
def surplus (seen : Nat) : Nat → List Char → Nat
  | _, [] => 0
  | offset, c :: rest =>
    (if seen ≤ offset then c.utf8Size - 1 else 0) + surplus seen (offset + c.utf8Size) rest

/-- Reads the content of a line. -/
def blockLine : Read (List Char) := do
  let l ← get
  let run := l.cursor.rest.takeWhile fun c => !isBreakOrEnd c
  let extra := surplus l.seen l.cursor.mark.bytes run
  move fun c =>
    let c := c.skipBlanks run.length
    { c with mark.index := c.mark.index + extra }
  return run

/-- How far one looks from the start of a line to find its indentation: by sixteen characters at a
time, and two characters into the content. -/
def indentationSight (spaces : Nat) : Nat :=
  max (16 * ((spaces - 1) / 16 + 1)) (spaces + 2)

/-- Skips empty lines, each indented by at most `indent` spaces; answers their number added to
`breaks`. -/
def blockGap (indent : Nat) : Nat → Nat → Read Nat
  | 0, breaks => pure breaks
  | fuel + 1, breaks => do
    let c ← cursor
    let spaces := min (c.rest.takeWhile (· == ' ')).length (indent - c.mark.column)
    lookAhead (indentationSight spaces)
    move fun c => spaces.repeat Cursor.skipBlank c
    if isBreak (← peek) then
      move Cursor.skipBreak
      blockGap indent fuel (breaks + 1)
    else pure breaks

/-- Skips the empty lines at the start of a block scalar; answers the deepest column met and the
number of lines. -/
def blockLead : Nat → Nat → Nat → Read (Nat × Nat)
  | 0, deepest, breaks => pure (deepest, breaks)
  | fuel + 1, deepest, breaks => do
    move (·.skipBlanksWhile (· == ' '))
    let deepest := max deepest (← mark).column
    if isBreak (← peek) then
      move Cursor.skipBreak
      blockLead fuel deepest (breaks + 1)
    else pure (deepest, breaks)

/-- What the lines read so far leave behind: the text, whether a break ends the last line, the empty
lines after it, and whether that line started with a blank. -/
structure BlockText where
  text : List Char := []
  ended : Bool := false
  empties : Nat := 0
  indented : Bool := false

def blockLines (literal : Bool) (indent : Nat) : Nat → BlockText → Read BlockText
  | 0, b => pure b
  | fuel + 1, b => do
    let c ← cursor
    if c.mark.column != indent || isEnd c.peek || (indent == 0 && atDocumentEnd c) then return b
    let blank := isBlank c.peek
    let lead :=
      if !literal && b.ended && !b.indented && !blank then
        if b.empties == 0 then [' '] else List.replicate b.empties '\n'
      else List.replicate (b.empties + if b.ended then 1 else 0) '\n'
    lookAhead (if indent == 0 then 4 else 1)
    let run ← blockLine
    let b : BlockText := { text := b.text ++ lead ++ run, indented := blank }
    if isEnd (← peek) then return b
    move Cursor.skipBreak
    let empties ← blockGap indent (← cursor).fuel 0
    blockLines literal indent fuel { b with ended := true, empties }

def blockScalar (literal : Bool) : Read Unit := do
  saveKey
  allowKey true
  let style := if literal then ScalarStyle.literal else .folded
  let header ← mark
  skip
  unrollNonBlock
  let (chomping, increment) ← blockHeader header
  skipGap
  if !isBreakOrEnd (← peek) then fail .blockHeader header
  let broken := isBreak (← peek)
  if broken then move Cursor.skipBreak
  if (← peek) == '\t' then fail .blockTab header
  let l ← get
  let (indent, empties) ←
    if increment > 0 then do
      let indent := if l.indent ≥ 0 then (l.indent + increment).toNat else increment
      let empties ← blockGap indent l.cursor.fuel 0
      pure (indent, empties)
    else do
      let (deepest, empties) ← blockLead l.cursor.fuel 0 0
      let indent := max deepest (l.indent + 1).toNat
      pure (if l.indent > 0 then max indent 1 else indent, empties)
  let start ← mark
  if isEnd (← peek) then
    let text :=
      if chomping == .strip || start.line == header.line then []
      else if chomping == .keep && empties > 0 then List.replicate empties '\n'
      else if broken then ['\n'] else []
    push (.scalar style (String.ofList text)) header
    return
  if start.column < indent && (start.column : Int) > l.indent then failHere .blockIndentation
  let b ← blockLines literal indent l.cursor.fuel { empties }
  let c ← cursor
  let last := if b.ended then ['\n'] else []
  let unended := if isEnd c.peek && c.mark.column ≥ max indent 1 then ['\n'] else []
  let tail :=
    match chomping with
    | .strip => []
    | .clip => last ++ unended
    | .keep => last ++ unended ++ List.replicate b.empties '\n'
  push (.scalar style (String.ofList (b.text ++ tail))) start

end EntityModel.Yaml.OneTwo
