import EntityModel.Yaml.Token

/-!
# The grammar of YAML

The grammar is a stack of what is still expected.  Each step reads at most a few tokens, answers one
event and replaces the top of the stack.  Versions 1.1 and 1.2 differ in a handful of rules, which
`Rules` names.
-/

namespace EntityModel.Yaml

structure Rules where
  /-- A `:` with no key before it stands for an empty key. -/
  bareValue : Bool
  /-- After `...` a document may start without `---`. -/
  resumesAfterEnd : Bool
  /-- A `...` before the first document is skipped. -/
  skipsLeadingEnd : Bool
  /-- A directive needs `...` before it, except at the start. -/
  directiveNeedsEnd : Bool
  /-- An alias must name an anchor that its document has set. -/
  checksAliases : Bool
  /-- A node starts at its anchor or tag. -/
  startsAtProperties : Bool
  /-- A tag gets its meaning before anything behind it is read; one without a meaning is reported
  where the properties of its node start. -/
  resolvesTagFirst : Bool
  /-- A version directive must be 1.1 or 1.2. -/
  checksVersion : Bool
  /-- Each handle may be declared once, and all of them hold; else the last directive alone
  counts. -/
  gathersHandles : Bool
  /-- What a node that is left out says. -/
  emptyText : String
  /-- A pair of a flow sequence ends before the token behind it is seen. -/
  endsPairUnseen : Bool
  /-- Where an empty node stands, between the indicator before it and the token after it. -/
  emptyAt : Token → Token → Mark
  /-- The same after the `:` of a flow mapping. -/
  emptyInFlowAt : Token → Token → Mark
  /-- The tag of a handle and a suffix, with the declared handles. -/
  resolveTag : List (String × String) → String → String → Option String

/-- What is expected next; block and flow collections remember where they were opened. -/
inductive Frame
  | stream
  | document (implicit : Bool)
  | content
  | documentEnd
  | node
  | blockSequence (opened : Option Mark)
  | indentlessSequence
  | blockMappingKey (opened : Option Mark)
  | blockMappingValue (opened : Mark)
  | flowSequence (opened : Option Mark)
  | pairKey
  | pairValue
  | pairEnd
  | flowMappingKey (opened : Option Mark)
  | flowMappingValue (opened : Mark) (present : Bool)
deriving Repr

structure Parser where
  tokens : List SentToken
  /-- How far the text was read for the tokens seen so far. -/
  readTo : Mark := {}
  /-- The expectations, next one first. -/
  frames : List Frame
  handles : List (String × String) := []
  anchors : List String := []

namespace Parser

/-- Why a step has no event: the tokens are used up, or they fit no rule. -/
inductive Stop
  | outOfTokens
  | fault (cause : GrammarFault) (mark : Mark) (context : Option Mark)

abbrev Parse := StateT Parser (Except Stop)

def peek : Parse Token := do
  match (← get).tokens with
  | t :: _ =>
    modify fun p => { p with readTo := t.readTo }
    return t.toToken
  | [] => throw .outOfTokens

def skip : Parse Unit := modify fun p => { p with tokens := p.tokens.tail }

/-- Replaces the current expectation by others, the nearest first. -/
def become (frames : List Frame) : Parse Unit :=
  modify fun p => { p with frames := frames ++ p.frames.tail }

def fail {α : Type} (cause : GrammarFault) (mark : Mark) (context : Option Mark) : Parse α :=
  throw (.fault cause mark context)

/-! ### Nodes -/

def registerAnchor (name : String) : Parse Unit :=
  modify fun p => { p with anchors := name :: p.anchors }

/-- The anchor that stands here, if there is one. -/
def anchor? : Parse (Option String) := do
  match (← peek).kind with
  | .anchor name =>
    skip
    registerAnchor name
    return some name
  | _ => return none

/-- The tag of a handle and a suffix that were read at `mark`, behind properties that start at
`start`. -/
def resolve (rules : Rules) (start mark : Mark) (handle suffix : String) : Parse String := do
  match rules.resolveTag (← get).handles handle suffix with
  | some tag => return tag
  | none => fail .undeclaredHandle (if rules.resolvesTagFirst then start else mark) (some start)

/-- The anchor and the tag before a node, in either order, and where the first of them stands. -/
def properties (rules : Rules) : Parse (Option String × Option String × Option Mark) := do
  let first ← peek
  match first.kind with
  | .anchor name =>
    skip
    registerAnchor name
    let second ← peek
    match second.kind with
    | .tag handle suffix =>
      skip
      if !rules.resolvesTagFirst then discard peek
      let tag ← resolve rules first.start second.start handle suffix
      return (some name, some tag, some first.start)
    | _ => return (some name, none, some first.start)
  | .tag handle suffix =>
    skip
    if rules.resolvesTagFirst then
      let tag ← resolve rules first.start first.start handle suffix
      return (← anchor?, some tag, some first.start)
    else
      let anchor ← anchor?
      discard peek
      let tag ← resolve rules first.start first.start handle suffix
      return (anchor, some tag, some first.start)
  | _ => return (none, none, none)

/-- A node, replacing the current expectation by what it needs and then `after`. -/
def node (rules : Rules) (block indentless : Bool) (after : List Frame) : Parse (Event × Mark) := do
  let first ← peek
  match first.kind with
  | .aliasTo name =>
    become after
    skip
    if rules.checksAliases && !(← get).anchors.contains name then
      fail .unknownAlias first.start none
    return (.aliasTo name, first.start)
  | _ =>
    let (anchor, tag, propertyMark) ← properties rules
    let t ← peek
    let start := if rules.startsAtProperties then propertyMark.getD t.start else t.start
    match t.kind with
    | .blockEntry =>
      if indentless then
        become (.indentlessSequence :: after)
        return (.sequenceStart anchor tag, start)
      else noContent anchor tag propertyMark t start
    | .scalar style text =>
      become after
      skip
      return (.scalar text style anchor tag, start)
    | .flowSequenceStart =>
      become (.flowSequence none :: after)
      return (.sequenceStart anchor tag, start)
    | .flowMappingStart =>
      become (.flowMappingKey none :: after)
      return (.mappingStart anchor tag, start)
    | .blockSequenceStart =>
      if block then
        become (.blockSequence none :: after)
        return (.sequenceStart anchor tag, start)
      else noContent anchor tag propertyMark t start
    | .blockMappingStart =>
      if block then
        become (.blockMappingKey none :: after)
        return (.mappingStart anchor tag, start)
      else noContent anchor tag propertyMark t start
    | _ => noContent anchor tag propertyMark t start
where
  /-- Properties alone are an empty node; nothing at all is a fault. -/
  noContent (anchor tag : Option String) (propertyMark : Option Mark) (t : Token) (start : Mark) :
      Parse (Event × Mark) := do
    if propertyMark.isSome then
      become after
      return (.scalar rules.emptyText .plain anchor tag, start)
    else fail (.nodeContent block) t.start (some start)

/-- An empty node in place of the current expectation. -/
def emptyNode (rules : Rules) (mark : Mark) (after : List Frame) : Parse (Event × Mark) := do
  become after
  return (.scalar rules.emptyText .plain none none, mark)

/-! ### Documents -/

/-- Reads the directives before `---`. -/
def directives (rules : Rules) : Nat → Bool → Parse Unit
  | 0, _ => pure ()
  | fuel + 1, versionSeen => do
    let t ← peek
    match t.kind with
    | .versionDirective major minor =>
      if versionSeen then fail .duplicateVersion t.start none
      if rules.checksVersion && !(major == 1 && (minor == 1 || minor == 2)) then
        fail .unsupportedVersion t.start none
      if !rules.gathersHandles then modify fun p => { p with handles := [] }
      skip
      directives rules fuel true
    | .tagDirective handle start =>
      let declared := (← get).handles
      let before := if rules.gathersHandles then declared else []
      if (before.lookup handle).isSome then fail .duplicateHandle t.start none
      modify fun p => { p with handles := (handle, start) :: before }
      skip
      directives rules fuel versionSeen
    | _ => pure ()

def explicitDocument (rules : Rules) : Parse (Event × Mark) := do
  let first ← peek
  directives rules ((← get).tokens.length + 1) false
  let t ← peek
  match t.kind with
  | .documentStart =>
    become [.content, .documentEnd]
    skip
    return (.documentStart, if rules.startsAtProperties then first.start else t.start)
  | _ => fail .documentStart t.start none

def document (rules : Rules) (implicit : Bool) : Parse (Event × Mark) := do
  if rules.skipsLeadingEnd || !implicit then
    modify fun p => { p with tokens := p.tokens.dropWhile fun t => t.kind == .documentEnd }
  modify fun p => { p with anchors := [] }
  let t ← peek
  match t.kind with
  | .streamEnd =>
    skip
    become []
    return (.streamEnd, t.start)
  | .versionDirective _ _ | .tagDirective _ _ | .documentStart => explicitDocument rules
  | _ =>
    if implicit then
      become [.node, .documentEnd]
      return (.documentStart, t.start)
    else explicitDocument rules

def content (rules : Rules) : Parse (Event × Mark) := do
  let t ← peek
  match t.kind with
  | .versionDirective _ _ | .tagDirective _ _ | .documentStart | .documentEnd | .streamEnd =>
    emptyNode rules t.start []
  | _ => node rules true false []

def documentEnd (rules : Rules) : Parse (Event × Mark) := do
  let t ← peek
  modify fun p => { p with handles := [] }
  match t.kind with
  | .documentEnd =>
    skip
    become [.document rules.resumesAfterEnd]
  | .versionDirective _ _ | .tagDirective _ _ =>
    if rules.directiveNeedsEnd then fail .directiveAfterDocument t.start none
    become [.document false]
  | _ => become [.document false]
  return (.documentEnd, t.start)

/-! ### Block collections -/

def blockSequence (rules : Rules) (opened : Option Mark) : Parse (Event × Mark) := do
  let start ← peek
  if opened.isNone then skip
  let opened := opened.getD start.start
  let t ← peek
  match t.kind with
  | .blockEnd =>
    become []
    skip
    return (.sequenceEnd, t.start)
  | .blockEntry =>
    skip
    let n ← peek
    match n.kind with
    | .blockEntry | .blockEnd => emptyNode rules (rules.emptyAt t n) [.blockSequence (some opened)]
    | _ => node rules true false [.blockSequence (some opened)]
  | _ => fail .blockSequenceEntry t.start (some opened)

def indentlessSequence (rules : Rules) : Parse (Event × Mark) := do
  let t ← peek
  match t.kind with
  | .blockEntry =>
    skip
    let n ← peek
    match n.kind with
    | .blockEntry | .key | .value | .blockEnd =>
      emptyNode rules (rules.emptyAt t n) [.indentlessSequence]
    | _ => node rules true false [.indentlessSequence]
  | _ =>
    become []
    return (.sequenceEnd, t.start)

def blockMappingKey (rules : Rules) (opened : Option Mark) : Parse (Event × Mark) := do
  let start ← peek
  if opened.isNone then skip
  let opened := opened.getD start.start
  let t ← peek
  let value := [Frame.blockMappingValue opened]
  match t.kind with
  | .key =>
    skip
    let n ← peek
    match n.kind with
    | .key | .value | .blockEnd => emptyNode rules (rules.emptyAt t n) value
    | _ => node rules true true value
  | .value =>
    if rules.bareValue then emptyNode rules t.start value
    else fail .blockMappingKey t.start (some opened)
  | .blockEnd =>
    become []
    skip
    return (.mappingEnd, t.start)
  | _ => fail .blockMappingKey t.start (some opened)

def blockMappingValue (rules : Rules) (opened : Mark) : Parse (Event × Mark) := do
  let t ← peek
  let key := [Frame.blockMappingKey (some opened)]
  match t.kind with
  | .value =>
    skip
    let n ← peek
    match n.kind with
    | .key | .value | .blockEnd => emptyNode rules (rules.emptyAt t n) key
    | _ => node rules true true key
  | _ => emptyNode rules t.start key

/-! ### Flow collections -/

def flowSequence (rules : Rules) (opened : Option Mark) : Parse (Event × Mark) := do
  let start ← peek
  if opened.isNone then skip
  let mark := opened.getD start.start
  let t ← peek
  if t.kind == .flowSequenceEnd then
    become []
    skip
    return (.sequenceEnd, t.start)
  if opened.isSome then
    if t.kind != .flowEntry then fail .flowSequenceEnd t.start (some mark)
    skip
  let t ← peek
  let more := [Frame.flowSequence (some mark)]
  match t.kind with
  | .flowSequenceEnd =>
    become []
    skip
    return (.sequenceEnd, t.start)
  | .key =>
    become (.pairKey :: more)
    skip
    return (.mappingStart none none, t.start)
  | _ => node rules false false more

def pairKey (rules : Rules) : Parse (Event × Mark) := do
  let t ← peek
  match t.kind with
  | .value | .flowEntry | .flowSequenceEnd =>
    skip
    emptyNode rules (if rules.startsAtProperties then t.stop else t.start) [.pairValue]
  | _ => node rules false false [.pairValue]

def pairValue (rules : Rules) : Parse (Event × Mark) := do
  let t ← peek
  match t.kind with
  | .value =>
    skip
    let n ← peek
    match n.kind with
    | .flowEntry | .flowSequenceEnd => emptyNode rules n.start [.pairEnd]
    | _ => node rules false false [.pairEnd]
  | _ => emptyNode rules t.start [.pairEnd]

/-- Such a pair has no token of its own at its end: it ends at the token behind it, or without a
look at that one, where the text has been read to. -/
def pairEnd (rules : Rules) : Parse (Event × Mark) := do
  let mark ← if rules.endsPairUnseen then pure (← get).readTo else pure (← peek).start
  become []
  return (.mappingEnd, mark)

def flowMappingKey (rules : Rules) (opened : Option Mark) : Parse (Event × Mark) := do
  let start ← peek
  if opened.isNone then skip
  let mark := opened.getD start.start
  let t ← peek
  if t.kind == .flowMappingEnd then
    become []
    skip
    return (.mappingEnd, t.start)
  let before := t
  if opened.isSome then
    if t.kind != .flowEntry then fail .flowMappingEnd t.start (some mark)
    skip
  let t ← peek
  let value := [Frame.flowMappingValue mark true]
  match t.kind with
  | .key =>
    skip
    let n ← peek
    match n.kind with
    | .value | .flowEntry | .flowMappingEnd => emptyNode rules n.start value
    | _ => node rules false false value
  | .flowMappingEnd =>
    become []
    skip
    return (.mappingEnd, if rules.bareValue then before.start else t.start)
  | .value =>
    if rules.bareValue then emptyNode rules t.start value
    else node rules false false [.flowMappingValue mark false]
  | _ => node rules false false [.flowMappingValue mark false]

def flowMappingValue (rules : Rules) (opened : Mark) (present : Bool) : Parse (Event × Mark) := do
  let t ← peek
  let key := [Frame.flowMappingKey (some opened)]
  match present, t.kind with
  | true, .value =>
    skip
    let n ← peek
    match n.kind with
    | .flowEntry | .flowMappingEnd => emptyNode rules (rules.emptyInFlowAt t n) key
    | _ => node rules false false key
  | _, _ => emptyNode rules t.start key

/-! ### Streams -/

/-- The event of the current expectation. -/
def step (rules : Rules) (frame : Frame) : Parse (Event × Mark) :=
  match frame with
  | .stream => do
    let t ← peek
    if t.kind != .streamStart then fail .streamStart t.start none
    become [.document true]
    skip
    return (.streamStart, t.start)
  | .document implicit => document rules implicit
  | .content => content rules
  | .documentEnd => documentEnd rules
  | .node => node rules true false []
  | .blockSequence opened => blockSequence rules opened
  | .indentlessSequence => indentlessSequence rules
  | .blockMappingKey opened => blockMappingKey rules opened
  | .blockMappingValue opened => blockMappingValue rules opened
  | .flowSequence opened => flowSequence rules opened
  | .pairKey => pairKey rules
  | .pairValue => pairValue rules
  | .pairEnd => pairEnd rules
  | .flowMappingKey opened => flowMappingKey rules opened
  | .flowMappingValue opened present => flowMappingValue rules opened present

/-- The events from a state of the parser on, and what stopped it. -/
def run (rules : Rules) : Nat → Parser → List (Event × Mark) × Option Stop
  | 0, _ => ([], none)
  | fuel + 1, p =>
    match p.frames with
    | [] => ([], none)
    | frame :: _ =>
      match (step rules frame).run p with
      | .error stop => ([], some stop)
      | .ok (event, p) =>
        let (events, stop) := run rules fuel p
        (event :: events, stop)

end Parser

/-- The events of a stream of tokens. -/
def EventStream.ofTokens {ε : Type} (rules : Rules) (stream : TokenStream ε) : EventStream ε :=
  let (events, stop) :=
    Parser.run rules (4 * stream.tokens.length + 16)
      { tokens := stream.tokens, frames := [.stream] }
  { events
    failure :=
      match stop with
      | none => none
      | some .outOfTokens => stream.fault.map .lexical
      | some (.fault cause mark context) => some (.grammar cause mark context) }

end EntityModel.Yaml
