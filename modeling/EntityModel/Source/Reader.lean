import EntityModel.Source.LoadError

/-!
# Reading events

A reader stands before the next event.  Each way of reading takes exactly the events of one node, or
fails at the event that does not fit and stays behind it.
-/

namespace EntityModel.Source

structure Reader where
  file : String
  rest : List Event
  /-- The place of the last event, for errors behind it. -/
  ending : Location
deriving Repr

/-- What reads events; after an error the reader stays where it came to. -/
abbrev Read := EStateM LoadError Reader

namespace Reader

def ofEvents (file : String) (events : List Event) : Reader where
  file := file
  rest := events
  ending := (events.getLast?.map Event.location).getD (.point ⟨0⟩ 0 0)

/-- The place of the next event. -/
def location (r : Reader) : Location :=
  (r.rest.head?.map Event.location).getD r.ending

def isNext (r : Reader) (kind : EventKind) : Bool :=
  r.rest.head?.any fun e => e.kind.alike kind

end Reader

namespace Read

def fail {α : Type} (cause : LoadCause) (location : Location) : Read α := do
  throw ⟨cause, (← get).file, some location⟩

/-- A key that the block does not know. -/
def unknownKey {α : Type} (block : Block) (key : Located String) : Read α :=
  fail (.unknownKey block key.value) key.location

/-- The value, which the block must have. -/
def require {α : Type} (value : Option α) (requirement : Requirement)
    (location : Location) : Read α :=
  match value with
  | some a => pure a
  | none => fail (.missing requirement) location

def location : Read Location := return (← get).location

def isNext (kind : EventKind) : Read Bool := return (← get).isNext kind

/-- The next event. -/
def next : Read Event := do
  let r ← get
  match r.rest with
  | e :: rest =>
    set { r with rest }
    return e
  | [] => fail .endOfEvents r.location

/-- Reads the next event if it is of a kind. -/
def consumeIf (kind : EventKind) : Read Bool := do
  let r ← get
  if r.isNext kind then
    set { r with rest := r.rest.tail }
    return true
  else return false

def expect (kind : EventKind) : Read Event := do
  let e ← next
  if e.kind.alike kind then return e
  fail (.expected kind e.kind) e.location

/-! ### Scalars -/

def scalar : Read (Located String) := do
  let e ← next
  match e.kind with
  | .scalar text => return ⟨text, e.location⟩
  | found => fail (.valueExpected found) e.location

/-- A scalar where `~`, `null` and nothing stand for no value. -/
def optionalScalar : Read (Option (Located String)) := do
  let s ← scalar
  return if s.value == "~" || s.value == "null" || s.value == "" then none else some s

def string : Read String := return (← scalar).value

def optionalString : Read (Option String) := return (← optionalScalar).map Located.value

def bool : Read Bool := do
  let s ← scalar
  if ["true", "True", "TRUE"].contains s.value then return true
  if ["false", "False", "FALSE"].contains s.value then return false
  fail (.notBoolean s.value) s.location

/-- Decimal digits, with a plus sign allowed, below `2 ^ 32`. -/
def number? (text : String) : Option Nat :=
  let digits :=
    match text.toList with
    | '+' :: rest => rest
    | cs => cs
  if digits.isEmpty || !digits.all Char.isDigit then none
  else
    let n := digits.foldl (fun v d => v * 10 + (d.toNat - '0'.toNat)) 0
    if n < Nat.pow 2 32 then some n else none

def number : Read Nat := do
  let s ← scalar
  match number? s.value with
  | some n => return n
  | none => fail (.notNumber s.value) s.location

/-! ### Collections -/

/-- The entries of a mapping that has been entered, each read by `f`, up to its end. -/
def entries {σ : Type} (f : σ → Located String → Read σ) : Nat → σ → Read σ
  | 0, acc => pure acc
  | fuel + 1, acc => do
    if ← consumeIf .mappingEnd then return acc
    let key ← scalar
    let acc ← f acc key
    entries f fuel acc

/-- The rest of a mapping that has been entered. -/
def remaining {σ : Type} (f : σ → Located String → Read σ) (acc : σ) : Read σ := do
  entries f ((← get).rest.length + 1) acc

/-- A mapping: `f` is given each key and reads its value. -/
def mapping {σ : Type} (f : σ → Located String → Read σ) (acc : σ) : Read σ := do
  let _ ← expect .mappingStart
  remaining f acc

/-- The items of a sequence that has been entered, each read by `f`. -/
def items {α : Type} (f : Read α) : Nat → Read (List α)
  | 0 => pure []
  | fuel + 1 => do
    if ← consumeIf .sequenceEnd then return []
    let item ← f
    let rest ← items f fuel
    return item :: rest

/-- A sequence: `f` reads each item. -/
def sequence {α : Type} (f : Read α) : Read (List α) := do
  let _ ← expect .sequenceStart
  items f ((← get).rest.length + 1)

/-- A sequence of scalars, or one scalar alone. -/
def scalarList : Read (List (Located String)) := do
  if ← isNext .sequenceStart then sequence scalar
  else return (← optionalScalar).toList

def stringList : Read (List String) := return (← scalarList).map Located.value

/-- Skips events until as many collections are closed as were opened. -/
def skipFrom : Nat → Nat → Read Unit
  | 0, _ => pure ()
  | fuel + 1, depth => do
    let e ← next
    let depth ←
      match e.kind with
      | .mappingStart | .sequenceStart => pure (depth + 1)
      | .mappingEnd | .sequenceEnd => pure (depth - 1)
      | .scalar _ => pure depth
      | found => fail (.valueExpected found) e.location
    if depth == 0 then return
    skipFrom fuel depth

/-- Skips one node. -/
def skipNode : Read Unit := do
  skipFrom ((← get).rest.length + 1) 0

end Read

end EntityModel.Source
