import EntityModel.Text.Characters
import EntityModel.Yaml.OneTwo

/-!
# The documents of a model file

A model file is a stream of documents.  Each document is read on its own, from the whole lines that
hold it, so that the line it starts at is all that is needed to find its nodes in the file.
-/

namespace EntityModel.Source

open Yaml

/-! ### The tree of a document

Model documents use a part of YAML: mappings at the top, keys that are scalars, no anchors and no
tags.  The tree keeps where each node starts and, for collections, ends.  A key that comes again
takes the later value and the last place.
-/

/-- A scalar and where it starts; how it was quoted is not kept. -/
structure Scalar where
  text : String
  start : Mark
deriving Repr, DecidableEq

inductive Node
  | scalar (s : Scalar)
  | mapping (start stop : Mark) (entries : List (Scalar × Node))
  | sequence (start stop : Mark) (items : List Node)
deriving Repr, Inhabited

/-- What a model document must not hold. -/
inductive NodeCause
  | topLevel
  | key
  | anchor
  | tag
deriving Repr, DecidableEq

structure NodeFault where
  cause : NodeCause
  mark : Mark
deriving Repr, DecidableEq

namespace Node

/-- A collection that is not closed yet: what it holds so far, last entry first. -/
inductive Partial
  | mapping (start : Mark) (entries : List (Scalar × Node)) (key : Option Scalar)
  | sequence (start : Mark) (items : List Node)

/-- The collections around the current place, innermost first, or the finished tree. -/
structure Builder where
  around : List Partial := []
  done : Option Node := none

namespace Builder

/-- The later entry of a key replaces the earlier one; the key is the one first written. -/
def putEntry (key : Scalar) (value : Node) (entries : List (Scalar × Node)) :
    List (Scalar × Node) :=
  match entries.find? (·.1.text == key.text) with
  | some (first, _) => (first, value) :: entries.filter (·.1.text != key.text)
  | none => (key, value) :: entries

/-- Puts a finished node into the collection around it. -/
def place (node : Node) (b : Builder) : Builder :=
  match b.around with
  | [] => { b with done := some node }
  | .sequence start items :: rest => { b with around := .sequence start (node :: items) :: rest }
  | .mapping start entries (some key) :: rest =>
    { b with around := .mapping start (putEntry key node entries) none :: rest }
  | .mapping _ _ none :: _ => b

/-- Whether a collection may start here. -/
def checkStart (mark : Mark) (anchor tag : Option String) (isMapping : Bool) (b : Builder) :
    Except NodeFault Unit :=
  if tag.isSome then .error ⟨.tag, mark⟩
  else if anchor.isSome then .error ⟨.anchor, mark⟩
  else match b.around with
    | [] => if isMapping then .ok () else .error ⟨.topLevel, mark⟩
    | .mapping _ _ none :: _ => .error ⟨.key, mark⟩
    | _ => .ok ()

def scalar (text : String) (mark : Mark) (anchor tag : Option String) (b : Builder) :
    Except NodeFault Builder :=
  if anchor.isSome then .error ⟨.anchor, mark⟩
  else if tag.isSome then .error ⟨.tag, mark⟩
  else match b.around with
    | [] => .error ⟨.topLevel, mark⟩
    | .mapping start entries none :: rest =>
      .ok { b with around := .mapping start entries (some ⟨text, mark⟩) :: rest }
    | _ => .ok (b.place (.scalar ⟨text, mark⟩))

def step (b : Builder) (event : Yaml.Event × Mark) : Except NodeFault Builder :=
  let (event, mark) := event
  match event with
  | .scalar text _ anchor tag => b.scalar text mark anchor tag
  | .mappingStart anchor tag => do
    b.checkStart mark anchor tag true
    return { b with around := .mapping mark [] none :: b.around }
  | .sequenceStart anchor tag => do
    b.checkStart mark anchor tag false
    return { b with around := .sequence mark [] :: b.around }
  | .mappingEnd =>
    match b.around with
    | .mapping start entries _ :: rest =>
      .ok ({ b with around := rest }.place (.mapping start mark entries.reverse))
    | _ => .ok b
  | .sequenceEnd =>
    match b.around with
    | .sequence start items :: rest =>
      .ok ({ b with around := rest }.place (.sequence start mark items.reverse))
    | _ => .ok b
  | _ => .ok b

end Builder

/-- The tree of no document at all. -/
def blank : Node := .mapping {} {} []

/-- The tree of the first document in a list of events. -/
def ofEvents (events : List (Yaml.Event × Mark)) : Except NodeFault Node := do
  let first := events.takeWhile fun e => e.1 != .documentEnd
  let b ← first.foldlM Builder.step {}
  return b.done.getD blank

end Node

/-! ### Reading a document -/

/-- Why a document has no tree: it is no YAML, or YAML that model files must not use. -/
inductive DocumentFault
  | text (failure : Failure OneTwo.Fault)
  | node (fault : NodeFault)
deriving Repr

def NodeCause.message : NodeCause → String
  | topLevel => "Top level must be a mapping"
  | key => "Keys in mappings must be scalar"
  | anchor => "Unexpected definition of anchor"
  | tag => "Unexpected use of YAML tag"

/-- A cause behind the place where it was met, which counts from the start of the document. -/
def placedCause (mark : Mark) (cause : String) : String :=
  s!"{mark.line + 1}:{mark.column + 1}: {cause}"

def DocumentFault.message : DocumentFault → String
  | text failure => placedCause (OneTwo.failureMark failure) (OneTwo.failureCause failure)
  | node ⟨cause, mark⟩ => placedCause mark cause.message

/-- The tree of the document that a text starts with.  Failures behind that document are not its
own. -/
def Node.ofText (text : List Char) : Except DocumentFault Node :=
  let stream := OneTwo.events text
  match stream.failure with
  | some failure =>
    if stream.events.any (·.1 == .documentEnd) then (Node.ofEvents stream.events).mapError .node
    else .error (.text failure)
  | none => (Node.ofEvents stream.events).mapError .node

/-! ### Documents -/

/-- The lines of a file that hold one document. -/
structure Document where
  firstLine : Nat
  lines : List (List Char)
deriving Repr, DecidableEq

/-- Why a file does not fall into documents: it is no YAML, or a document starts at a line that the
file does not have.  Marks also count the lines that end in a lone CR.  The first is an answer, the
second ends the run without one. -/
inductive SplitFault
  | text (failure : Failure OneTwo.Fault)
  | lineMissing (line : Nat)
deriving Repr

namespace Document

def text (d : Document) : List Char :=
  d.lines.flatMap (· ++ ['\n'])

def isBlankLine (line : List Char) : Bool :=
  match Text.trim line with
  | [] => true
  | c :: _ => c == '#'

/-- A line without the marker `---` that it starts with. -/
def withoutMarker : List Char → List Char
  | '-' :: '-' :: '-' :: rest => rest
  | line => line

/-- Nothing but separators and comments. -/
def isBlank (d : Document) : Bool :=
  match d.lines with
  | [] => true
  | first :: rest => isBlankLine (withoutMarker first) && rest.all isBlankLine

/-- The lines between two marks.  An end at the start of a line leaves that line out.  A document
cannot start behind the last line. -/
def between (lines : List (List Char)) (start stop : Mark) : Except SplitFault Document :=
  let last := if stop.column == 0 then stop.line else stop.line + 1
  let last := max (min last lines.length) start.line
  if lines.length < start.line then .error (.lineMissing start.line)
  else .ok ⟨start.line, (lines.drop start.line).take (last - start.line)⟩

/-- The marks where the documents of a stream start and end. -/
def bounds : Option Mark → List (Yaml.Event × Mark) → List (Mark × Mark)
  | _, [] => []
  | _, (.documentStart, mark) :: rest => bounds (some mark) rest
  | some start, (.documentEnd, mark) :: rest => (start, mark) :: bounds none rest
  | start, _ :: rest => bounds start rest

/-- The documents of a file that hold something. -/
def split (source : List Char) : Except SplitFault (List Document) := do
  let stream := OneTwo.events source
  match stream.failure with
  | some failure => throw (.text failure)
  | none =>
    let lines := Text.lines source
    let documents ← (bounds none stream.events).mapM fun (start, stop) => between lines start stop
    return documents.filter fun d => !d.isBlank

end Document

end EntityModel.Source
