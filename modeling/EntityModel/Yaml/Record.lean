import EntityModel.Text.Literal
import EntityModel.Yaml.OneOne
import EntityModel.Yaml.PlainValue

/-!
# Records written in YAML 1.1

A record is a mapping whose keys are fields.  Decoding walks over the items of the one document of a
text; an error says which field it is about, what was found there and what was expected.  A text
that breaks off is decoded as far as it goes, so that an error of the record comes before one of the
text.
-/

namespace EntityModel.Yaml

/-- The parts of a document; an alias has the number of an anchor. -/
inductive Item
  | aliasTo (anchor : Nat)
  | scalar (text : String) (style : ScalarStyle) (tag : Option String)
  | sequenceStart
  | sequenceEnd
  | mappingStart
  | mappingEnd
  /-- There is no document. -/
  | void
deriving Repr, DecidableEq

/-- What was found where something else was expected. -/
inductive Found
  | bool (b : Bool)
  | integer (n : Int)
  | wide (n : Int)
  | float (text : String)
  | string (text : String)
  | unit
  | sequence
  | mapping
deriving Repr, DecidableEq

def Found.message : Found → String
  | bool b => s!"boolean \x60{b}\x60"
  | integer n => s!"integer \x60{n}\x60"
  | wide n => s!"integer \x60{n}\x60 as " ++ (if n < 0 then "i128" else "u128")
  | float text => s!"floating point \x60{text}\x60"
  | string text => "string " ++ Text.literal text
  | unit => "unit value"
  | sequence => "sequence"
  | mapping => "map"

inductive RecordCause
  | text (failure : Failure OneOne.Fault)
  | unknownAnchor
  | endOfText
  | severalDocuments
  | wrongType (found : Found) (expected : String)
  | wrongValue (text : String) (expected : String)
  | duplicateField (name : String)
  | missingField (name : String)
  | custom (message : String)
deriving Repr

/-- A cause, and where it is known the place and the path of the field. -/
structure RecordError where
  cause : RecordCause
  place : Option (Mark × String)
deriving Repr

namespace RecordError

def causeMessage : RecordCause → String
  | .text failure => OneOne.failureMessage failure
  | .unknownAnchor => "unknown anchor"
  | .endOfText => "EOF while parsing a value"
  | .severalDocuments =>
    "deserializing from YAML containing more than one document is not supported"
  | .wrongType found expected => s!"invalid type: {found.message}, expected {expected}"
  | .wrongValue text expected => s!"invalid value: string {Text.literal text}, expected {expected}"
  | .duplicateField name => s!"duplicate field \x60{name}\x60"
  | .missingField name => s!"missing field \x60{name}\x60"
  | .custom message => message

def message (e : RecordError) : String :=
  match e.place with
  | none => causeMessage e.cause
  | some (mark, path) =>
    (if path.isEmpty then "" else path ++ ": ") ++ causeMessage e.cause ++ OneOne.markMessage mark

end RecordError

/-! ### The document -/

/-- The anchors of a document.  A number is the count of names before it: a name that is set again
takes a number that the next new name takes too, and both then stand for the later item. -/
structure Anchors where
  /-- The names with their numbers, each name once. -/
  numbers : List (String × Nat) := []
  /-- The numbers with the items that they stand for, later ones first. -/
  targets : List (Nat × Nat) := []

/-- Sets an anchor, if there is one, on an item. -/
def Anchors.set (anchors : Anchors) (name : Option String) (item : Nat) : Anchors :=
  match name with
  | none => anchors
  | some name =>
    let number := anchors.numbers.length
    { numbers := (name, number) :: anchors.numbers.filter (·.1 != name)
      targets := (number, item) :: anchors.targets }

/-- The items of the first document, what its aliases stand for, what is wrong with the text behind
them, and whether more follows. -/
structure Document where
  items : Array (Item × Mark)
  anchors : Anchors
  error : Option RecordError
  continues : Bool

namespace Document

/-- Collects the items up to the end of a document. -/
def collect (failure : Option (Failure OneOne.Fault)) :
    List (Event × Mark) → Anchors → Array (Item × Mark) → Document
  | [], anchors, items => ⟨items, anchors, failure.map fun f => ⟨.text f, none⟩, false⟩
  | (event, mark) :: rest, anchors, items =>
    let note (anchor : Option String) : Anchors := anchors.set anchor items.size
    match event with
    | .streamStart | .documentStart => collect failure rest anchors items
    | .streamEnd => ⟨if items.isEmpty then items.push (.void, mark) else items,
      anchors, none, false⟩
    | .documentEnd =>
      let continues := match rest with
        | [(.streamEnd, _)] => false
        | _ => true
      ⟨items, anchors, none, continues⟩
    | .aliasTo name =>
      match anchors.numbers.lookup name with
      | some number => collect failure rest anchors (items.push (.aliasTo number, mark))
      | none => ⟨items, anchors, some ⟨.unknownAnchor, some (mark, "")⟩, false⟩
    | .scalar text style anchor tag =>
      collect failure rest (note anchor) (items.push (.scalar text style tag, mark))
    | .sequenceStart anchor _ =>
      collect failure rest (note anchor) (items.push (.sequenceStart, mark))
    | .sequenceEnd => collect failure rest anchors (items.push (.sequenceEnd, mark))
    | .mappingStart anchor _ =>
      collect failure rest (note anchor) (items.push (.mappingStart, mark))
    | .mappingEnd => collect failure rest anchors (items.push (.mappingEnd, mark))

def ofText (text : String) : Document :=
  let stream := OneOne.events text.toList
  collect stream.failure stream.events {} #[]

end Document

/-! ### Decoding -/

/-- Decoding keeps the number of the next item. -/
abbrev Decode := ReaderT Document (StateT Nat (Except RecordError))

namespace Decode

def itemAt (n : Nat) : Decode (Item × Mark) := do
  let d ← read
  match d.items[n]? with
  | some item => return item
  | none => throw (d.error.getD ⟨.endOfText, none⟩)

/-- The number of the item that an anchor stands for; every alias has an anchor before it. -/
def target (anchor : Nat) : Decode Nat :=
  return ((← read).anchors.targets.lookup anchor).getD 0

def peek : Decode (Item × Mark) := do itemAt (← get)

def next : Decode (Item × Mark) := do
  let item ← peek
  modify (· + 1)
  return item

/-- Gives an error that has no place yet this one. -/
def placed {α : Type} (mark : Mark) (path : String) (d : Decode α) : Decode α :=
  fun document n =>
    match d document n with
    | .error ⟨.text f, place⟩ => .error ⟨.text f, place⟩
    | .error ⟨.endOfText, place⟩ => .error ⟨.endOfText, place⟩
    | .error ⟨cause, none⟩ => .error ⟨cause, some (mark, path)⟩
    | result => result

def fail {α : Type} (cause : RecordCause) : Decode α := throw ⟨cause, none⟩

/-- What an untagged plain scalar counts as. -/
def foundPlain (text : String) : Found :=
  match PlainValue.ofText text with
  | .null => .unit
  | .bool b => .bool b
  | .integer n => .integer n
  | .wide n => .wide n
  | .float negative magnitude => .float (if negative then "-" ++ magnitude else magnitude)
  | .text => .string text

def coreTag (name : String) : String := "tag:yaml.org,2002:" ++ name

/-- What a scalar counts as: its tag decides, then its quotes. -/
def foundScalar (text : String) (style : ScalarStyle) (tag : Option String) :
    Except RecordCause Found :=
  let plain := if style == .plain then foundPlain text else .string text
  match tag with
  | none => .ok plain
  | some tag =>
    let value := foundPlain text
    if tag == coreTag "bool" then
      match value with
      | .bool b => .ok (.bool b)
      | _ => .error (.wrongValue text "a boolean")
    else if tag == coreTag "int" then
      match value with
      | .integer n => .ok (.integer n)
      | .wide n => .ok (.wide n)
      | _ => .error (.wrongValue text "an integer")
    else if tag == coreTag "float" then
      match PlainValue.float? text with
      | some (.float negative magnitude) =>
        .ok (.float (if negative then "-" ++ magnitude else magnitude))
      | _ => .error (.wrongValue text "a float")
    else if tag == coreTag "null" then
      if PlainValue.nullWords.contains text then .ok .unit else .error (.wrongValue text "null")
    else if tag.startsWith "!" then .ok plain
    else .ok (.string text)

/-- The fault of finding an item where something else was expected. -/
def wrongItem (item : Item) (expected : String) : RecordCause :=
  match item with
  | .scalar text style tag =>
    match foundScalar text style tag with
    | .ok found => .wrongType found expected
    | .error cause => cause
  | .sequenceStart => .wrongType .sequence expected
  | .mappingStart => .wrongType .mapping expected
  | _ => .endOfText

/-- An item together with what an alias stands for. -/
def resolved (item : Item) (mark : Mark) : Decode (Item × Mark) :=
  match item with
  | .aliasTo anchor => do itemAt (← target anchor)
  | item => return (item, mark)

/-- The text of any scalar. -/
def string (expected path : String) : Decode String := do
  let (item, mark) ← next
  let (item, mark) ← resolved item mark
  placed mark path do
    match item with
    | .scalar text _ _ => return text
    | item => fail (wrongItem item expected)

def bool (path : String) : Decode Bool := do
  let (item, mark) ← next
  let (item, mark) ← resolved item mark
  placed mark path do
    let value? :=
      match item with
      | .scalar text .plain _ => PlainValue.bool? text
      | .scalar text .literal tag =>
        if tag == some (coreTag "bool") then PlainValue.bool? text else none
      | _ => none
    match value? with
    | some b => return b
    | none => fail (wrongItem item "a boolean")

/-- The elements of a sequence up to its end; each is given its own number. -/
def elements {α : Type} (element : Nat → Decode α) : Nat → Nat → Decode (List α)
  | 0, _ => return []
  | fuel + 1, index => do
    let (item, _) ← peek
    if item == .sequenceEnd then
      modify (· + 1)
      return []
    let a ← element index
    let rest ← elements element fuel (index + 1)
    return a :: rest

def isEmptyPlain : Item → Bool
  | .void => true
  | .scalar text style _ => text.isEmpty && style == .plain
  | _ => false

/-- A sequence of elements; nothing at all is an empty one. -/
def list {α : Type} (element : String → Decode α) (path : String) : Decode (List α) := do
  let (item, mark) ← next
  let size := (← read).items.size
  let body : Decode (List α) := elements (fun index => element s!"{path}[{index}]") (size + 1) 0
  match item with
  | .aliasTo anchor =>
    let start ← target anchor
    let (item, mark) ← itemAt start
    let back ← get
    let result ← placed mark path (match item with
      | .sequenceStart => do set (start + 1); body
      | item => if isEmptyPlain item then return [] else fail (wrongItem item "a sequence"))
    set back
    return result
  | .sequenceStart => placed mark path body
  | item =>
    placed mark path (if isEmptyPlain item then return [] else fail (wrongItem item "a sequence"))

/-- Skips one item with all that it holds. -/
def skipFrom : Nat → Nat → Decode Unit
  | 0, _ => pure ()
  | fuel + 1, depth => do
    let (item, _) ← next
    let depth :=
      match item with
      | .sequenceStart | .mappingStart => depth + 1
      | .sequenceEnd | .mappingEnd => depth - 1
      | _ => depth
    if depth == 0 then return
    skipFrom fuel depth

def skip : Decode Unit := do skipFrom ((← read).items.size + 1) 0

end Decode

/-- A field of a record and how it is decoded, at a path, into what was decoded so far. -/
structure RecordField (σ : Type) where
  name : String
  decode : String → σ → Decode σ

namespace Decode

/-- The path of the field of a key; an alias does not say which field it is. -/
def fieldPath (item : Item) (key : String) : String :=
  match item with
  | .aliasTo _ => "?"
  | _ => key

/-- The fields of a record up to its end; unknown keys are skipped, known ones may come once. -/
def fields {σ : Type} (known : List (RecordField σ)) :
    Nat → List String → σ → Decode (List String × σ)
  | 0, seen, acc => return (seen, acc)
  | fuel + 1, seen, acc => do
    let (item, _) ← peek
    if item == .mappingEnd then
      modify (· + 1)
      return (seen, acc)
    let key ← string "field identifier" ""
    match known.find? (·.name == key) with
    | none =>
      skip
      fields known fuel seen acc
    | some field =>
      if seen.contains key then fail (.duplicateField key)
      let acc ← field.decode (fieldPath item key) acc
      fields known fuel (key :: seen) acc

/-- A record: nothing at all is one without fields; those in `required` must be there. -/
def record {σ : Type} (name : String) (known : List (RecordField σ))
    (required : List String) (acc : σ) :
    Decode σ := do
  let (item, mark) ← next
  let size := (← read).items.size
  placed mark "" do
    let (seen, acc) ←
      match item with
      | .mappingStart => fields known (size + 1) [] acc
      | item =>
        if isEmptyPlain item then pure ([], acc) else fail (wrongItem item ("struct " ++ name))
    match required.find? fun field => !seen.contains field with
    | some field => fail (.missingField field)
    | none => return acc

end Decode

/-- Decodes the one document of a text. -/
def decodeText {α : Type} (decode : Decode α) (text : String) : Except RecordError α := do
  let document := Document.ofText text
  let (a, _) ← (decode.run document).run 0
  match document.error with
  | some e => throw e
  | none => if document.continues then throw ⟨.severalDocuments, none⟩ else return a

end EntityModel.Yaml
