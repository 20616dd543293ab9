import EntityModel.Yaml.OneTwo.Scalars

/-!
# Tokens of a YAML 1.2 text

A tag is a handle and a suffix; both may hold escaped bytes, which are joined into characters.
`next` reads one more token, together with those that the indentation brings.
-/

namespace EntityModel.Yaml.OneTwo

open Scan

/-! ### Escaped bytes -/

/-- One escaped byte. -/
def uriByte (start : Mark) : Read Nat := do
  let c ← cursor
  if !(c.peek == '%' && isHex (c.peekAt 1) && isHex (c.peekAt 2)) then fail .uriEscape start
  return hexValue (c.peekAt 1) * 16 + hexValue (c.peekAt 2)

/-- The bytes after the first, shifted together. -/
def uriTrail (start : Mark) : Nat → Nat → Read Nat
  | 0, code => pure code
  | n + 1, code => do
    let byte ← uriByte start
    if byte / 0x40 != 2 then fail .uriTrailingByte start
    move (Cursor.skipMany 3)
    uriTrail start n (code * 256 + byte)

/-- The character whose escaped bytes start here. -/
def uriEscape (start : Mark) : Read Char := do
  let byte ← uriByte start
  match leadingWidth? byte with
  | none => fail .uriLeadingByte start
  | some width =>
    move (Cursor.skipMany 3)
    match charOfCode? (← uriTrail start (width - 1) byte) with
    | some c => return c
    | none => fail .uriCodePoint start

/-- The longest run of characters accepted by `p`, escapes resolved. -/
def uriRun (p : Char → Bool) (start : Mark) : Nat → Read (List Char)
  | 0 => pure []
  | fuel + 1 => do
    let c ← peek
    if !p c then return []
    let c ← if c == '%' then uriEscape start else do skip; pure c
    let rest ← uriRun p start fuel
    return c :: rest

def uriText (p : Char → Bool) (start : Mark) : Read (List Char) := do
  uriRun p start (← cursor).fuel

/-! ### Tags -/

/-- `!`, `!!` or `!name!`; outside a directive also `!name`. -/
def tagHandle (directive : Bool) (start : Mark) : Read (List Char) := do
  if (← peek) != '!' then fail .tagHandleStart start
  skip
  let name ← takeWhile isAlpha
  if (← peek) == '!' then
    skip
    return '!' :: name ++ ['!']
  if directive && !name.isEmpty then fail .tagDirectiveHandle start
  return '!' :: name

/-- The part of a tag behind its handle; `head` is what was read as a handle but is part of it. -/
def tagSuffix (head : List Char) (start : Mark) : Read (List Char) := do
  let rest ← uriText isTagChar start
  if head.length + rest.length == 0 then fail .tagUri start
  return head.tail ++ rest

def tag : Read Unit := do
  saveKey
  allowKey false
  let start ← mark
  let (handle, suffix) ←
    if (← peekAt 1) == '<' then do
      move (Cursor.skipMany 2)
      let uri ← uriText isUriChar start
      if (← peek) != '>' then fail .verbatimTagEnd start
      skip
      pure ([], uri)
    else do
      let handle ← tagHandle false start
      if handle.length ≥ 2 && handle.getLast? == some '!' then
        let suffix ← tagSuffix [] start
        pure (handle, suffix)
      else
        let suffix ← tagSuffix handle start
        pure (if suffix.isEmpty then ([], ['!']) else (['!'], suffix))
  let next ← peek
  if !(isGap next || ((← get).flow > 0 && isFlow next)) then fail .tagTrailing start
  push (.tag (String.ofList handle) (String.ofList suffix)) start

/-! ### Anchors -/

def anchor (isAlias : Bool) : Read Unit := do
  saveKey
  allowKey false
  let start ← mark
  skip
  let name ← takeWhile isAnchorChar
  if name.isEmpty then fail .anchorName start
  let name := String.ofList name
  push (if isAlias then .aliasTo name else .anchor name) start

/-! ### Directives -/

def versionNumber (start : Mark) : Read Nat := do
  let digits := (← cursor).rest.takeWhile Char.isDigit
  if digits.length > 9 then fail .versionTooLong start
  if digits.isEmpty then fail .versionNumber start
  let _ ← takeWhile Char.isDigit
  return decimalValue digits

def skipBlanks : Read Unit := move (·.skipBlanksWhile isBlank)

def tagPrefix (start : Mark) : Read (List Char) := do
  let c ← peek
  let first ←
    if c == '!' then do skip; pure c
    else if !isTagChar c then fail .tagPrefixCharacter start
    else if c == '%' then uriEscape start
    else do skip; pure c
  let rest ← uriText isUriChar start
  return first :: rest

/-- A directive line; names other than `YAML` and `TAG` are read as a tag directive for nothing. -/
def directive : Read Unit := do
  unrollIndent (-1)
  removeKey
  allowKey false
  let start ← mark
  skip
  let nameStart ← mark
  let name ← takeWhile isAlpha
  if name.isEmpty then fail .directiveNameMissing nameStart
  if !isGap (← peek) then fail .directiveNameCharacter nameStart
  let kind ←
    match String.ofList name with
    | "YAML" => do
      skipBlanks
      let major ← versionNumber start
      if (← peek) != '.' then fail .versionDot start
      skip
      let minor ← versionNumber start
      pure (TokenKind.versionDirective major minor)
    | "TAG" => do
      skipBlanks
      let handle ← tagHandle true start
      skipBlanks
      let tagStart ← tagPrefix start
      if !isGap (← peek) then fail .tagDirectiveTrailing start
      pure (TokenKind.tagDirective (String.ofList handle) (String.ofList tagStart))
    | _ => do
      skipComment
      pure (TokenKind.tagDirective "" "")
  skipGap
  let next ← peek
  if !isBreakOrEnd next then fail .directiveTrailing start
  if isBreak next then move Cursor.skipBreak
  push kind start

/-! ### Flow collections -/

/-- The deepest nesting of flow collections. -/
def flowLimit : Nat := 255

def flowStart (kind : TokenKind) : Read Unit := do
  saveKey
  rollOneColumn
  modify fun l => { l with keys := {} :: l.keys }
  if (← get).flow ≥ flowLimit then failHere .nestingLimit
  modify fun l => { l with flow := l.flow + 1 }
  allowKey true
  let start ← mark
  skip
  if kind == .flowMappingStart then modify fun l => { l with inFlowMapping := true }
  skipGap
  push kind start

def flowEnd (kind : TokenKind) : Read Unit := do
  removeKey
  modify fun l => if l.flow > 0 then { l with flow := l.flow - 1, keys := l.keys.tail } else l
  allowKey false
  endPair (← mark)
  let start ← mark
  skip
  skipGap
  modify fun l => if l.flow > 0 then { l with adjacentAt := l.cursor.mark.index } else l
  push kind start

def flowEntry : Read Unit := do
  removeKey
  allowKey true
  endPair (← mark)
  let start ← mark
  skip
  skipGap
  push .flowEntry start

/-! ### Block collections -/

def blockEntry : Read Unit := do
  let l ← get
  if l.flow > 0 then failHere .dashInFlow
  if !l.keyAllowed then failHere .blockEntryContext
  match l.queue.getLast? with
  | some ⟨.anchor _, start, _⟩ | some ⟨.tag _ _, start, _⟩ =>
    if l.cursor.mark.column == 0 && start.column == 0 && l.indent > -1 then
      fail .anchorIndentation start
  | _ => pure ()
  let start := l.cursor.mark
  skip
  rollIndent start.column none .blockSequenceStart start
  let (tabs, _) ← skipLineBlanks true
  let c ← cursor
  if tabs && c.peek == '-' && isGap (c.peekAt 1) then failHere .dashAfterTab
  let _ ← skipLineBlanks false
  let next ← peek
  if isBreak next || isFlow next then rollOneColumn
  removeKey
  allowKey true
  push .blockEntry (← mark)

def explicitKey : Read Unit := do
  let start ← mark
  if (← get).flow == 0 then
    if !(← get).keyAllowed then failHere .keyContext
    rollIndent start.column none .blockMappingStart start
  else modify fun l => { l with inFlowMapping := true }
  removeKey
  allowKey ((← get).flow == 0)
  skip
  let met ← skipSpacesAndBreaks (← cursor).fuel false
  if !met then failHere .whitespaceExpected
  if (← peek) == '\t' then failHere .tabAfterKey
  push .key start

def value : Read Unit := do
  let l ← get
  let start := l.cursor.mark
  let key := l.keys.headD {}
  let pair := l.flow > 0 && !l.inFlowMapping
  modify fun l => { l with inPair := pair }
  skip
  if (← peek) == '\t' then
    let (_, spaces) ← skipLineBlanks true
    let next ← peek
    if !spaces && (next == '-' || isAlpha next) then failHere .tabAfterColon
  if key.possible then
    insert key.token .key key.mark
    if pair then
      if key.mark.line < start.line then fail .colonPlacement start
      insert key.token .flowMappingStart (← mark)
    rollIndent key.mark.column (some key.token) .blockMappingStart start
    rollOneColumn
    modify fun l => { l with keys := (l.keys.headD {}).drop :: l.keys.tail }
    allowKey false
  else
    if pair then push .flowMappingStart (← mark)
    if l.flow == 0 then
      if !l.keyAllowed then fail .valueContext start
      rollIndent start.column none .blockMappingStart start
    rollOneColumn
    allowKey (l.flow == 0)
  push .value start

/-! ### Documents and streams -/

def documentMarker (kind : TokenKind) : Read Unit := do
  unrollIndent (-1)
  removeKey
  allowKey false
  let start ← mark
  move (Cursor.skipMany 3)
  push kind start

def streamEnd : Read Unit := do
  forceNewLine
  let l ← get
  if l.keys.any fun k => k.required && k.possible then failHere .keyExpected
  set { l with keys := l.keys.map PendingKey.drop }
  unrollIndent (-1)
  removeKey
  allowKey false
  push .streamEnd (← mark)

/-- Reads one more token. -/
def next : Read Unit := do
  if !(← get).started then
    streamStart
    return
  skipToToken (← cursor).fuel
  dropStaleKeys
  unrollIndent (← mark).column
  let l ← get
  let c := l.cursor
  let flow := l.flow > 0
  if isEnd c.peek then streamEnd
  else if c.mark.column == 0 && c.peek == '%' then directive
  else if c.mark.column == 0 && atDocumentStart c then documentMarker .documentStart
  else if c.mark.column == 0 && atDocumentEnd c then do
    documentMarker .documentEnd
    skipGap
    if !isBreakOrEnd (← peek) then failHere .contentAfterDocumentEnd
  else if (c.mark.column : Int) < l.indent then failHere .indentation
  else match c.peek with
    | '[' => flowStart .flowSequenceStart
    | '{' => flowStart .flowMappingStart
    | ']' => flowEnd .flowSequenceEnd
    | '}' => flowEnd .flowMappingEnd
    | ',' => flowEntry
    | '-' => if isGap (c.peekAt 1) then blockEntry else plainScalar
    | '?' => if isGap (c.peekAt 1) then explicitKey else plainScalar
    | ':' =>
      if isGap (c.peekAt 1) || (flow && (isFlow (c.peekAt 1) || c.mark.index == l.adjacentAt)) then
        value
      else plainScalar
    | '*' => anchor true
    | '&' => anchor false
    | '!' => tag
    | '|' => if flow then plainScalar else blockScalar true
    | '>' => if flow then plainScalar else blockScalar false
    | '\'' => quotedScalar true
    | '"' => quotedScalar false
    | '%' | '@' | '\x60' => failHere (.unexpectedCharacter c.peek)
    | _ => plainScalar

/-- The tokens of a text. -/
def tokens (text : List Char) : TokenStream Fault :=
  Scan.tokens next dropStaleKeys text

end EntityModel.Yaml.OneTwo
