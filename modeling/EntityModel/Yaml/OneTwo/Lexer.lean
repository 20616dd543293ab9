import EntityModel.Yaml.Cursor
import EntityModel.Yaml.Lexer

/-!
# What the YAML 1.2 lexer does with its state

Blanks and comments are read alike before all tokens.  An indentation may ask for one more column
without opening a block.  A pending key that is required, because its block stands at its column,
must not be given up.
-/

namespace EntityModel.Yaml.OneTwo

/-! ### Character classes

Only LF and CR break lines.  The end of the text counts as `endOfText`.
-/

def isEnd (c : Char) : Bool := c == endOfText

def isBreak (c : Char) : Bool := c == '\n' || c == '\r'

def isBreakOrEnd (c : Char) : Bool := isBreak c || isEnd c

def isBlank (c : Char) : Bool := c == ' ' || c == '\t'

/-- A blank, a break or the end: what may follow an indicator. -/
def isGap (c : Char) : Bool := isBlank c || isBreakOrEnd c

/-- Indicators that end a plain scalar inside a flow collection. -/
def isFlow (c : Char) : Bool := c == ',' || c == '[' || c == ']' || c == '{' || c == '}'

def byteOrderMark : Char := '\ufeff'

def isAnchorChar (c : Char) : Bool :=
  !isBreak c && c != byteOrderMark && !isBlank c && !isFlow c && !isEnd c

def isUriChar (c : Char) : Bool :=
  isWordChar c || "#;/?:@&=+$,_.!~*'()[]%".toList.contains c

def isTagChar (c : Char) : Bool := isUriChar c && !isFlow c && c != '!'

/-- `mark` followed by something that cannot belong to the same word. -/
def startsWithMarker (c : Cursor) (mark : Char) : Bool :=
  c.peek == mark && c.peekAt 1 == mark && c.peekAt 2 == mark && isGap (c.peekAt 3)

/-- The document markers `---` and `...`. -/
def atDocumentStart (c : Cursor) : Bool := startsWithMarker c '-'

def atDocumentEnd (c : Cursor) : Bool := startsWithMarker c '.'

def atDocumentMarker (c : Cursor) : Bool :=
  c.mark.column == 0 && (atDocumentStart c || atDocumentEnd c)

/-! ### Lexical faults

A fault is a cause and the place it is reported at.  The wording of each cause is fixed by
`LexicalFault.message`.
-/

inductive LexicalFault
  | contentAfterDocumentEnd
  | indentation
  | unexpectedCharacter (c : Char)
  | keyWithoutValue
  | keyExpected
  | tabInIndentation
  | commentWithoutBlank
  | whitespaceExpected
  | directiveTrailing
  | directiveNameMissing
  | directiveNameCharacter
  | versionDot
  | versionTooLong
  | versionNumber
  | tagDirectiveTrailing
  | tagTrailing
  | tagHandleStart
  | tagDirectiveHandle
  | tagPrefixCharacter
  | verbatimTagEnd
  | tagUri
  | uriEscape
  | uriLeadingByte
  | uriTrailingByte
  | uriCodePoint
  | anchorName
  | nestingLimit
  | dashInFlow
  | blockEntryContext
  | anchorIndentation
  | dashAfterTab
  | blockIndentZero
  | blockHeader
  | blockTab
  | blockIndentation
  | plainFlowIndentation
  | plainDash
  | plainTab
  | quotedMarker
  | quotedEnd
  | quotedIndentation
  | quotedTab
  | quotedTrailing
  | escapeUnknown
  | escapeDigits
  | escapeCodePoint
  | keyContext
  | tabAfterKey
  | tabAfterColon
  | colonPlacement
  | valueContext
deriving Repr, DecidableEq

def LexicalFault.message : LexicalFault → String
  | contentAfterDocumentEnd => "invalid content after document end marker"
  | indentation => "invalid indentation"
  | unexpectedCharacter c => "unexpected character: \x60" ++ c.toString ++ "'"
  | keyWithoutValue => "simple key expect ':'"
  | keyExpected => "simple key expected"
  | tabInIndentation => "tabs disallowed within this context (block indentation)"
  | commentWithoutBlank => "comments must be separated from other tokens by whitespace"
  | whitespaceExpected => "expected whitespace"
  | directiveTrailing => "while scanning a directive, did not find expected comment or line break"
  | directiveNameMissing => "while scanning a directive, could not find expected directive name"
  | directiveNameCharacter =>
    "while scanning a directive, found unexpected non-alphabetical character"
  | versionDot => "while scanning a YAML directive, did not find expected digit or '.' character"
  | versionTooLong => "while scanning a YAML directive, found extremely long version number"
  | versionNumber => "while scanning a YAML directive, did not find expected version number"
  | tagDirectiveTrailing => "while scanning TAG, did not find expected whitespace or line break"
  | tagTrailing => "while scanning a tag, did not find expected whitespace or line break"
  | tagHandleStart => "while scanning a tag, did not find expected '!'"
  | tagDirectiveHandle => "while parsing a tag directive, did not find expected '!'"
  | tagPrefixCharacter => "invalid global tag character"
  | verbatimTagEnd => "while scanning a verbatim tag, did not find the expected '>'"
  | tagUri => "while parsing a tag, did not find expected tag URI"
  | uriEscape => "while parsing a tag, did not find URI escaped octet"
  | uriLeadingByte => "while parsing a tag, found an incorrect leading UTF-8 octet"
  | uriTrailingByte => "while parsing a tag, found an incorrect trailing UTF-8 octet"
  | uriCodePoint => "while parsing a tag, found an invalid UTF-8 codepoint"
  | anchorName => "while scanning an anchor or alias, did not find expected alphabetic or numeric character"
  | nestingLimit => "recursion limit exceeded"
  | dashInFlow => "\"-\" is only valid inside a block"
  | blockEntryContext => "block sequence entries are not allowed in this context"
  | anchorIndentation => "invalid indentation for anchor"
  | dashAfterTab => "'-' must be followed by a valid YAML whitespace"
  | blockIndentZero => "while scanning a block scalar, found an indentation indicator equal to 0"
  | blockHeader => "while scanning a block scalar, did not find expected comment or line break"
  | blockTab => "a block scalar content cannot start with a tab"
  | blockIndentation => "wrongly indented line in block scalar"
  | plainFlowIndentation => "invalid indentation in flow construct"
  | plainDash => "plain scalar cannot start with '-' followed by ,[]\x7b\x7d"
  | plainTab => "while scanning a plain scalar, found a tab"
  | quotedMarker => "while scanning a quoted scalar, found unexpected document indicator"
  | quotedEnd => "while scanning a quoted scalar, found unexpected end of stream"
  | quotedIndentation => "invalid indentation in quoted scalar"
  | quotedTab => "tab cannot be used as indentation"
  | quotedTrailing => "invalid trailing content after double-quoted scalar"
  | escapeUnknown => "while parsing a quoted scalar, found unknown escape character"
  | escapeDigits => "while parsing a quoted scalar, did not find expected hexadecimal number"
  | escapeCodePoint => "while parsing a quoted scalar, found invalid Unicode character escape code"
  | keyContext => "mapping keys are not allowed in this context"
  | tabAfterKey => "tabs disallowed in this context"
  | tabAfterColon => "':' must be followed by a valid YAML whitespace"
  | colonPlacement => "illegal placement of ':' indicator"
  | valueContext => "mapping values are not allowed in this context"

/-- A lexical fault and where it is reported. -/
structure Fault where
  cause : LexicalFault
  mark : Mark
deriving Repr, DecidableEq

/-- Reading in YAML 1.2. -/
abbrev Read := Scan Fault

open Scan

def fail {α : Type} (cause : LexicalFault) (mark : Mark) : Read α :=
  throw ⟨cause, mark⟩

/-- Fails at the current place. -/
def failHere {α : Type} (cause : LexicalFault) : Read α := do
  fail cause (← mark)

/-! ### Blanks and comments -/

def skipComment : Read Unit := do
  let _ ← takeWhile fun c => !isBreakOrEnd c

/-- Skips to the end of the line or the next content; answers whether tabs and whether spaces were
met.  A comment needs a blank before it. -/
def skipLineBlanks (tabs : Bool) : Read (Bool × Bool) := do
  let accept (c : Char) : Bool := c == ' ' || (tabs && c == '\t')
  let run := (← cursor).rest.takeWhile accept
  move (·.skipBlanksWhile accept)
  if (← peek) == '#' then
    if run.isEmpty then failHere .commentWithoutBlank
    skipComment
  return (run.contains '\t', run.contains ' ')

def skipGap : Read Unit := do
  let _ ← skipLineBlanks true

/-- Skips blanks, breaks and comments up to the next token. -/
def skipToToken : Nat → Read Unit
  | 0 => pure ()
  | fuel + 1 => do
    let l ← get
    match l.cursor.peek with
    | '\t' =>
      if !l.indents.isEmpty && l.cursor.leading && (l.cursor.mark.column : Int) < l.indent then
        skipGap
        if !isBreakOrEnd (← peek) then failHere .tabInIndentation
      else move Cursor.skipBlank
      skipToToken fuel
    | ' ' => move Cursor.skipBlank; skipToToken fuel
    | '\n' | '\r' =>
      move Cursor.skipBreak
      if l.flow == 0 then allowKey true
      skipToToken fuel
    | '#' => skipComment; skipToToken fuel
    | _ => pure ()

/-- Skips spaces, breaks and comments; answers whether a space or a break was met. -/
def skipSpacesAndBreaks : Nat → Bool → Read Bool
  | 0, met => pure met
  | fuel + 1, met => do
    match ← peek with
    | ' ' => move Cursor.skipBlank; skipSpacesAndBreaks fuel true
    | '\n' | '\r' =>
      move Cursor.skipBreak
      if (← get).flow == 0 then allowKey true
      skipSpacesAndBreaks fuel true
    | '#' => skipComment; skipSpacesAndBreaks fuel met
    | _ => pure met

/-! ### Indentation -/

/-- Asks for one more column without opening a block. -/
def rollOneColumn : Read Unit :=
  modify fun l =>
    match l.indents with
    | i :: _ =>
      if l.flow == 0 && i.closes then
        { l with indents := ⟨l.indent, false⟩ :: l.indents, indent := l.indent + 1 }
      else l
    | [] => l

/-- Drops the indentations that opened no block. -/
def unrollNonBlock : Read Unit :=
  modify fun l =>
    let rec drop (indent : Int) : List Indent → Int × List Indent
      | i :: rest => if i.closes then (indent, i :: rest) else drop i.column rest
      | [] => (indent, [])
    let (indent, indents) := drop l.indent l.indents
    { l with indent, indents }

/-! ### Pending keys -/

/-- Notes that a key may start here. -/
def saveKey : Read Unit :=
  modify fun l =>
    if l.keyAllowed then
      let required := l.flow == 0 && l.indent == (l.cursor.mark.column : Int)
        && (l.indents.head?.map Indent.closes).getD false
      let key : PendingKey :=
        { possible := true, required, token := l.delivered + l.queue.length, mark := l.cursor.mark }
      { l with keys := key :: l.keys.tail }
    else l

/-- Gives up the innermost pending key. -/
def removeKey : Read Unit := do
  let l ← get
  match l.keys with
  | k :: rest =>
    if k.possible && k.required then failHere .keyExpected
    set { l with keys := k.drop :: rest }
  | [] => pure ()

/-- Gives up the pending keys that have ended without a `:`; their length counts in characters. -/
def dropStaleKeys : Read Unit := do
  let l ← get
  if l.flow > 0 then return
  let stale (k : PendingKey) : Bool := k.isStale Mark.index l.cursor.mark
  if l.keys.any fun k => stale k && k.required then failHere .keyWithoutValue
  set { l with keys := l.keys.map fun k => if stale k then k.drop else k }

/-- Closes the pair of a flow sequence, if one is open. -/
def endPair (mark : Mark) : Read Unit := do
  if (← get).inPair then
    modify fun l => { l with inPair := false, inFlowMapping := false }
    push .flowMappingEnd mark

end EntityModel.Yaml.OneTwo
