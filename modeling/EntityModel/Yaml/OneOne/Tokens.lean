import EntityModel.Yaml.OneOne.Scalars

/-!
# Tokens of a YAML 1.1 text

`next` reads one more token, together with those that the indentation brings.
-/

namespace EntityModel.Yaml.OneOne

open Scan

/-- A byte order mark may start a text. -/
def skipByteOrderMark : Read Unit := do
  if (← mark).index == 0 && (← peek) == '\ufeff' then skip

/-- Skips blanks, breaks and comments up to the next token.  Tabs are blanks only where no key may
start. -/
def skipToToken : Nat → Read Unit
  | 0 => pure ()
  | fuel + 1 => do
    skipByteOrderMark
    let l ← get
    move (·.skipBlanksWhile fun c => c == ' ' || ((l.flow > 0 || !l.keyAllowed) && c == '\t'))
    skipComment
    if isBreak (← peek) then
      move Cursor.skipBreak
      if !(← inFlow) then allowKey true
      skipToToken fuel

/-! ### Tags and anchors -/

/-- One escaped octet. -/
def uriOctet (context : Context) (start : Mark) : Read Nat := do
  let c ← cursor
  if !(c.peek == '%' && isHex (c.peekAt 1) && isHex (c.peekAt 2)) then fail context start .uriOctet
  return hexValue (c.peekAt 1) * 16 + hexValue (c.peekAt 2)

/-- The octets after the first, each giving six bits. -/
def uriTrail (context : Context) (start : Mark) : Nat → Nat → Read Nat
  | 0, code => pure code
  | n + 1, code => do
    let octet ← uriOctet context start
    if octet / 0x40 != 2 then fail context start .uriTrailingOctet
    move (Cursor.skipMany 3)
    uriTrail context start n (code * 64 + octet % 64)

/-- The character whose escaped octets start here; octets that no character is written in are
replaced. -/
def uriEscape (context : Context) (start : Mark) : Read Char := do
  let octet ← uriOctet context start
  match leadingWidth? octet with
  | none => fail context start .uriLeadingOctet
  | some width =>
    move (Cursor.skipMany 3)
    let lead := if width == 1 then octet else octet % Nat.pow 2 (7 - width)
    let code ← uriTrail context start (width - 1) lead
    match charOfCode? code with
    | some c => return if c.utf8Size == width then c else '\ufffd'
    | none => return '\ufffd'

def uriRun (context : Context) (verbatim : Bool) (start : Mark) : Nat → Read (List Char)
  | 0 => pure []
  | fuel + 1 => do
    let c ← peek
    if !isUriChar verbatim c then return []
    let c ← if c == '%' then uriEscape context start else do skip; pure c
    let rest ← uriRun context verbatim start fuel
    return c :: rest

/-- A tag URI behind `head`, which was read as a handle but is part of it. -/
def uri (directive verbatim : Bool) (head : List Char) (start : Mark) : Read (List Char) := do
  let context := if directive then Context.parsedTagDirective else .parsedTag
  let rest ← uriRun context verbatim start (← cursor).fuel
  if head.length + rest.length == 0 then fail context start .tagUri
  return head.tail ++ rest

/-- `!`, `!!` or `!name!`; outside a directive also `!name`. -/
def tagHandle (directive : Bool) (start : Mark) : Read (List Char) := do
  if (← peek) != '!' then fail (if directive then .tagDirectiveStart else .tag) start .tagStart
  skip
  let name ← takeWhile isAlpha
  if (← peek) == '!' then
    skip
    return '!' :: name ++ ['!']
  if directive && !name.isEmpty then fail .tagDirectiveHandle start .tagStart
  return '!' :: name

def tag : Read Unit := do
  saveKey
  allowKey false
  let start ← mark
  let (handle, suffix) ←
    if (← peekAt 1) == '<' then do
      move (Cursor.skipMany 2)
      let suffix ← uri false true [] start
      if (← peek) != '>' then fail .tag start .verbatimTagEnd
      skip
      pure ([], suffix)
    else do
      let handle ← tagHandle false start
      if handle.length ≥ 2 && handle.getLast? == some '!' then
        let suffix ← uri false false [] start
        pure (handle, suffix)
      else
        let suffix ← uri false false handle start
        pure (if suffix.isEmpty then ([], ['!']) else (['!'], suffix))
  let next ← peek
  if !((← inFlow) && next == ',') && !isGap next then fail .tag start .tagTrailing
  push (.tag (String.ofList handle) (String.ofList suffix)) start

def anchor (isAlias : Bool) : Read Unit := do
  saveKey
  allowKey false
  let start ← mark
  skip
  let name ← takeWhile isAlpha
  let next ← peek
  if name.isEmpty || !(isGap next || "?:,]\x7d%@\x60".toList.contains next) then
    fail (if isAlias then .aliasName else .anchor) start .anchorName
  let name := String.ofList name
  push (if isAlias then .aliasTo name else .anchor name) start

/-! ### Directives -/

/-- A number of at most nine digits; a longer one is reported at its tenth. -/
def versionNumber (start : Mark) : Read Nat := do
  let digits := (← cursor).rest.takeWhile Char.isDigit
  move (Cursor.skipMany (min digits.length 9))
  if digits.length > 9 then fail .versionDirective start .versionTooLong
  if digits.isEmpty then fail .versionDirective start .versionNumber
  return decimalValue digits

def directive : Read Unit := do
  unrollIndent (-1)
  removeKey
  allowKey false
  let start ← mark
  skip
  let name ← takeWhile isAlpha
  if name.isEmpty then fail .directive start .directiveNameMissing
  if !isGap (← peek) then fail .directive start .directiveNameCharacter
  let kind ←
    match String.ofList name with
    | "YAML" => do
      skipBlanks
      let major ← versionNumber start
      if (← peek) != '.' then fail .versionDirective start .versionDot
      skip
      let minor ← versionNumber start
      pure (TokenKind.versionDirective major minor)
    | "TAG" => do
      skipBlanks
      let handle ← tagHandle true start
      if !isBlank (← peek) then fail .tagDirective start .tagDirectiveBlank
      skipBlanks
      let tagStart ← uri true true [] start
      if !isGap (← peek) then fail .tagDirective start .tagDirectiveTrailing
      pure (TokenKind.tagDirective (String.ofList handle) (String.ofList tagStart))
    | _ => fail .directive start .directiveName
  push kind start
  skipBlanks
  skipComment
  let next ← peek
  if !isBreakOrEnd next then fail .directive start .lineTrailing
  if isBreak next then move Cursor.skipBreak

/-! ### Collections and documents -/

/-- An indicator of one character. -/
def indicator (kind : TokenKind) : Read Unit := do
  let start ← mark
  skip
  push kind start

def flowStart (kind : TokenKind) : Read Unit := do
  saveKey
  modify fun l => { l with keys := {} :: l.keys, flow := l.flow + 1 }
  allowKey true
  indicator kind

def flowEnd (kind : TokenKind) : Read Unit := do
  removeKey
  modify fun l => if l.flow > 0 then { l with flow := l.flow - 1, keys := l.keys.tail } else l
  allowKey false
  indicator kind

def flowEntry : Read Unit := do
  removeKey
  allowKey true
  indicator .flowEntry

def blockEntry : Read Unit := do
  let l ← get
  if l.flow == 0 then
    if !l.keyAllowed then failBare .blockEntryContext
    rollIndent l.cursor.mark.column none .blockSequenceStart l.cursor.mark
  removeKey
  allowKey true
  indicator .blockEntry

def explicitKey : Read Unit := do
  let l ← get
  if l.flow == 0 then
    if !l.keyAllowed then failBare .keyContext
    rollIndent l.cursor.mark.column none .blockMappingStart l.cursor.mark
  removeKey
  allowKey (l.flow == 0)
  indicator .key

def value : Read Unit := do
  let l ← get
  let key := l.keys.headD {}
  if key.possible then
    insert key.token .key key.mark
    rollIndent key.mark.column (some key.token) .blockMappingStart key.mark
    modify fun l => { l with keys := key.drop :: l.keys.tail }
    allowKey false
  else
    if l.flow == 0 then
      if !l.keyAllowed then failBare .valueContext
      rollIndent l.cursor.mark.column none .blockMappingStart l.cursor.mark
    allowKey (l.flow == 0)
  indicator .value

def documentMarker (kind : TokenKind) : Read Unit := do
  unrollIndent (-1)
  removeKey
  allowKey false
  let start ← mark
  move (Cursor.skipMany 3)
  push kind start

def streamEnd : Read Unit := do
  forceNewLine
  unrollIndent (-1)
  removeKey
  allowKey false
  push .streamEnd (← mark)

/-- What no plain scalar starts with. -/
def isIndicator (c : Char) : Bool :=
  "-?:,[]\x7b\x7d#&*!|>'\"%@\x60".toList.contains c

/-- Reads one more token. -/
def next : Read Unit := do
  if !(← get).started then
    streamStart
    return
  skipToToken (← cursor).fuel
  dropStaleKeys
  unrollIndent (← mark).column
  let c ← cursor
  let flow ← inFlow
  let gapNext := isGap (c.peekAt 1)
  if isEnd c.peek then streamEnd
  else if c.mark.column == 0 && c.peek == '%' then directive
  else if atDocumentStart c then documentMarker .documentStart
  else if atDocumentEnd c then documentMarker .documentEnd
  else match c.peek with
    | '[' => flowStart .flowSequenceStart
    | '{' => flowStart .flowMappingStart
    | ']' => flowEnd .flowSequenceEnd
    | '}' => flowEnd .flowMappingEnd
    | ',' => flowEntry
    | '*' => anchor true
    | '&' => anchor false
    | '!' => tag
    | '\'' => quotedScalar true
    | '"' => quotedScalar false
    | ch =>
      if ch == '-' && gapNext then blockEntry
      else if ch == '?' && (flow || gapNext) then explicitKey
      else if ch == ':' && (flow || gapNext) then value
      else if ch == '|' && !flow then blockScalar true
      else if ch == '>' && !flow then blockScalar false
      else if !(isGap ch || isIndicator ch) || ch == '-' || (!flow && (ch == '?' || ch == ':')) then
        plainScalar
      else do fail .nextToken (← mark) .noToken

/-- The bytes before the first character that a text must not hold. -/
def controlOffset? : List Char → Option Nat
  | [] => none
  | c :: rest => if isAllowed c then (controlOffset? rest).map (· + c.utf8Size) else some 0

/-- The tokens of a text, or none at all if it holds a control character. -/
def tokens (text : List Char) : TokenStream Fault :=
  match controlOffset? text with
  | some offset => ⟨[], some ⟨.controlCharacter offset, {}, none⟩⟩
  | none => Scan.tokens next dropStaleKeys text

end EntityModel.Yaml.OneOne
