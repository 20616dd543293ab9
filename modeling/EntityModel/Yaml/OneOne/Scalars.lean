import EntityModel.Yaml.OneOne.Chars
import EntityModel.Yaml.OneOne.Fault

/-!
# Scalars of YAML 1.1

The three kinds of scalars, with blanks, comments and pending keys as this version has them.
-/

namespace EntityModel.Yaml.OneOne

open Scan

/-- Reading in YAML 1.1. -/
abbrev Read := Scan Fault

/-- Fails at the current place, while reading something that began at `start`. -/
def fail {α : Type} (context : Context) (start : Mark) (problem : Problem) : Read α := do
  throw ⟨problem, ← mark, some (context, start)⟩

/-- Fails at a place where a token must not stand. -/
def failBare {α : Type} (problem : Problem) : Read α := do
  throw ⟨problem, ← mark, none⟩

/-! ### Pending keys -/

/-- Gives up the innermost pending key, which must not be a required one. -/
def removeKey : Read Unit := do
  let l ← get
  match l.keys with
  | k :: rest =>
    if k.possible && k.required then fail .simpleKey k.mark .keyWithoutValue
    set { l with keys := k.drop :: rest }
  | [] => pure ()

/-- Notes that a key may start here. -/
def saveKey : Read Unit := do
  let l ← get
  if l.keyAllowed then
    let key : PendingKey :=
      { possible := true
        required := l.flow == 0 && l.indent == (l.cursor.mark.column : Int)
        token := l.delivered + l.queue.length
        mark := l.cursor.mark }
    removeKey
    modify fun l => { l with keys := key :: l.keys.tail }

/-- Gives up the pending keys that have ended without a `:`; their length counts in bytes. -/
def dropStaleKeys : Read Unit := do
  let l ← get
  let stale (k : PendingKey) : Bool := k.isStale Mark.bytes l.cursor.mark
  match l.keys.reverse.find? fun k => stale k && k.required with
  | some k => fail .simpleKey k.mark .keyWithoutValue
  | none => set { l with keys := l.keys.map fun k => if stale k then k.drop else k }

def skipComment : Read Unit := do
  if (← peek) == '#' then
    let _ ← takeWhile fun c => !isBreakOrEnd c

def skipBlanks : Read Unit := move (·.skipBlanksWhile isBlank)

/-! ### Gaps -/

/-- The gap between two runs of a flow scalar: its blanks if it holds no break, else its breaks, the
first one and those after it. -/
structure Gap where
  blanks : List Char := []
  broken : Bool := false
  first : Option Char := none
  further : List Char := []

/-- One break is a space; of several the first is dropped, unless it stands for itself. -/
def Gap.text (g : Gap) : List Char :=
  if !g.broken then g.blanks
  else match g.first with
    | some '\n' => if g.further.isEmpty then [' '] else g.further
    | first => first.toList ++ g.further

/-- Reads a gap; with `tabStart`, a tab before the column `indent` of a further line is a fault. -/
def gap (tabStart : Option (Mark × Int)) : Nat → Gap → Read Gap
  | 0, g => pure g
  | fuel + 1, g => do
    let c ← cursor
    if isBlank c.peek then
      if g.broken then
        match tabStart with
        | some (start, indent) =>
          if (c.mark.column : Int) < indent && c.peek == '\t' then fail .plainScalar start .plainTab
        | none => pure ()
        move Cursor.skipBlank
        gap tabStart fuel g
      else
        move Cursor.skipBlank
        gap tabStart fuel { g with blanks := g.blanks ++ [c.peek] }
    else if isBreak c.peek then
      move Cursor.skipBreak
      if g.broken then gap tabStart fuel { g with further := g.further ++ [breakText c.peek] }
      else
        gap tabStart fuel { g with blanks := [], broken := true, first := some (breakText c.peek) }
    else pure g

/-! ### Plain scalars -/

/-- The cursor is at an indicator that ends a plain scalar. -/
def endsPlain (flow : Bool) (c : Cursor) : Bool :=
  (c.peek == ':' && isGap (c.peekAt 1)) || (flow && isFlow c.peek)

/-- The run of characters up to a gap or an ending indicator. -/
def plainRun (start : Mark) (flow : Bool) : Nat → Read (List Char)
  | 0 => pure []
  | fuel + 1 => do
    let c ← cursor
    if isGap c.peek then return []
    if flow && c.peek == ':' && (isFlow (c.peekAt 1) || c.peekAt 1 == '?') then
      fail .plainScalar start .plainColon
    if endsPlain flow c then return []
    skip
    let rest ← plainRun start flow fuel
    return c.peek :: rest

/-- The text of a plain scalar behind `text`, where its last run ended, and whether a break
follows. -/
def plainText (start : Mark) (indent : Int) :
    Nat → List Char → Gap → Mark → Read (List Char × Mark × Bool)
  | 0, text, g, stop => pure (text, stop, g.broken)
  | fuel + 1, text, g, stop => do
    let c ← cursor
    let flow ← inFlow
    if atDocumentMarker c || c.peek == '#' then return (text, stop, g.broken)
    let run ← plainRun start flow c.fuel
    let here ← mark
    let (text, g, stop) :=
      if run.isEmpty then (text, g, stop) else (text ++ g.text ++ run, {}, here)
    let next ← peek
    if !(isBlank next || isBreak next) then return (text, stop, g.broken)
    let g ← gap (some (start, indent)) (← cursor).fuel g
    if !flow && ((← mark).column : Int) < indent then return (text, stop, g.broken)
    plainText start indent fuel text g stop

def plainScalar : Read Unit := do
  saveKey
  allowKey false
  let l ← get
  let start := l.cursor.mark
  let (text, stop, broken) ← plainText start (l.indent + 1) l.cursor.fuel [] {} start
  if broken then allowKey true
  modify fun l => { l with queue := l.queue
    ++ [⟨.scalar .plain (String.ofList text), start, stop⟩] }

/-! ### Quoted scalars -/

/-- The character of the escape that starts at the backslash here. -/
def escape (start : Mark) : Read Char := do
  let letter ← peekAt 1
  match shortEscape? letter, escapeLength? letter with
  | some c, _ => move (Cursor.skipMany 2); return c
  | none, none => fail .escape start .escapeUnknown
  | none, some n =>
    move (Cursor.skipMany 2)
    let digits := (List.range n).map (← cursor).peekAt
    if !digits.all isHex then fail .escape start .escapeDigits
    match charOfCode? (digits.foldl (fun v d => v * 16 + hexValue d) 0) with
    | some c => move (Cursor.skipMany n); return c
    | none => fail .escape start .escapeCodePoint

/-- The characters up to a gap or the closing quote; the second component tells whether an escaped
break ended them. -/
def quotedRun (single : Bool) (start : Mark) : Nat → Read (List Char × Bool)
  | 0 => pure ([], false)
  | fuel + 1 => do
    let c ← cursor
    let more (first : Char) : Read (List Char × Bool) := do
      let (run, escapedBreak) ← quotedRun single start fuel
      return (first :: run, escapedBreak)
    if isGap c.peek then return ([], false)
    else if single && c.peek == '\'' then
      if c.peekAt 1 == '\'' then
        move (Cursor.skipMany 2)
        more '\''
      else return ([], false)
    else if !single && c.peek == '"' then return ([], false)
    else if !single && c.peek == '\\' then
      if isBreak (c.peekAt 1) then
        move fun c => c.skip.skipBreak
        return ([], true)
      else more (← escape start)
    else
      skip
      more c.peek

/-- The text between the quotes; the cursor is left on the closing one. -/
def quotedText (single : Bool) (start : Mark) : Nat → List Char → Read (List Char)
  | 0, text => pure text
  | fuel + 1, text => do
    let c ← cursor
    if atDocumentMarker c then fail .quotedScalar start .quotedMarker
    if isEnd c.peek then fail .quotedScalar start .quotedEnd
    let (run, escapedBreak) ← quotedRun single start c.fuel
    let text := text ++ run
    if (← peek) == (if single then '\'' else '"') then return text
    let g ← gap none (← cursor).fuel { broken := escapedBreak }
    quotedText single start fuel (text ++ g.text)

def quotedScalar (single : Bool) : Read Unit := do
  saveKey
  allowKey false
  let start ← mark
  skip
  let text ← quotedText single start (← cursor).fuel []
  skip
  push (.scalar (if single then .singleQuoted else .doubleQuoted) (String.ofList text)) start

/-! ### Block scalars -/

/-- The header behind `|` or `>`: chomping and the explicit indentation, in either order. -/
def blockHeader (start : Mark) : Read (Chomping × Nat) := do
  let chomping : Read Chomping := do
    match ← peek with
    | '+' => skip; return .keep
    | '-' => skip; return .strip
    | _ => return .clip
  let increment : Read Nat := do
    let c ← peek
    if c.isDigit then
      if c == '0' then fail .blockScalar start .blockIndentZero
      skip
      return hexValue c
    else return 0
  let first ← chomping
  let increment ← increment
  if first == .clip && increment > 0 then return (← chomping, increment)
  return (first, increment)

/-- Skips empty lines; answers their breaks and the deepest column met.  While the indentation is
not known, `indent` is zero and any number of spaces is skipped. -/
def blockBreaks (start : Mark) (indent : Nat) : Nat → List Char → Nat → Read (List Char × Nat)
  | 0, breaks, deepest => pure (breaks, deepest)
  | fuel + 1, breaks, deepest => do
    let c ← cursor
    let spaces := (c.rest.takeWhile (· == ' ')).length
    let spaces := if indent == 0 then spaces else min spaces (indent - c.mark.column)
    move fun c => spaces.repeat Cursor.skipBlank c
    let c ← cursor
    let deepest := max deepest c.mark.column
    if (indent == 0 || c.mark.column < indent) && c.peek == '\t' then
      fail .blockScalar start .blockTab
    if isBreak c.peek then
      move Cursor.skipBreak
      blockBreaks start indent fuel (breaks ++ [breakText c.peek]) deepest
    else return (breaks, deepest)

/-- What the lines read so far leave behind: the text, the break that ends the last line, the breaks
of the empty lines after it, and whether that line started with a blank. -/
structure BlockText where
  text : List Char := []
  ended : List Char := []
  empties : List Char := []
  indented : Bool := false

def blockLines (literal : Bool) (start : Mark) (indent : Nat) : Nat → BlockText → Read BlockText
  | 0, b => pure b
  | fuel + 1, b => do
    let c ← cursor
    if c.mark.column != indent || isEnd c.peek then return b
    let blank := isBlank c.peek
    let lead :=
      if !literal && b.ended == ['\n'] && !b.indented && !blank then
        if b.empties.isEmpty then [' '] else b.empties
      else b.ended ++ b.empties
    let run ← takeWhile fun c => !isBreakOrEnd c
    let next ← peek
    if isBreak next then move Cursor.skipBreak
    let ended := if isBreak next then [breakText next] else []
    let (empties, _) ← blockBreaks start indent (← cursor).fuel [] 0
    blockLines literal start indent fuel
      { text := b.text ++ lead ++ run, ended, empties, indented := blank }

def blockScalar (literal : Bool) : Read Unit := do
  removeKey
  allowKey true
  let start ← mark
  skip
  let (chomping, increment) ← blockHeader start
  skipBlanks
  skipComment
  if !isBreakOrEnd (← peek) then fail .blockScalar start .lineTrailing
  if isBreak (← peek) then move Cursor.skipBreak
  let l ← get
  let known :=
    if increment == 0 then 0 else if l.indent ≥ 0 then (l.indent + increment).toNat else increment
  let (empties, deepest) ← blockBreaks start known l.cursor.fuel [] 0
  let indent := if known > 0 then known else max (max deepest (l.indent + 1).toNat) 1
  let b ← blockLines literal start indent l.cursor.fuel { empties }
  let tail :=
    match chomping with
    | .strip => []
    | .clip => b.ended
    | .keep => b.ended ++ b.empties
  push (.scalar (if literal then .literal else .folded) (String.ofList (b.text ++ tail))) start

end EntityModel.Yaml.OneOne
