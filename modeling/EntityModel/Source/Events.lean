import EntityModel.Source.LoadError

/-!
# From text to events

The tree of each document is walked in order.  Marks of a document become places in the file by
adding the line the document starts at.  A scalar ends after as many characters as its text has, on
the line it starts at; a collection ends where the tree says.
-/

namespace EntityModel.Source

open Yaml

/-- Where marks of a document lie in the file. -/
structure Offset where
  file : FileId
  line : Nat

namespace Offset

def position (o : Offset) (mark : Mark) : Position := ⟨o.line + mark.line, mark.column⟩

def ofScalar (o : Offset) (s : Scalar) : Location :=
  let start := o.position s.start
  ⟨o.file, ⟨start, ⟨start.line, start.column + s.text.length⟩⟩⟩

def ofCollection (o : Offset) (start stop : Mark) : Location :=
  ⟨o.file, ⟨o.position start, o.position stop⟩⟩

def point (o : Offset) (mark : Mark) : Location :=
  ⟨o.file, .point (o.position mark)⟩

end Offset

def Scalar.event (o : Offset) (s : Scalar) : Event := ⟨.scalar s.text, o.ofScalar s⟩

mutual

/-- The events of a node: of a collection, a start, its parts in order and an end. -/
def Node.events (o : Offset) : Node → List Event
  | .scalar s => [s.event o]
  | .mapping start stop entries =>
    ⟨.mappingStart, o.ofCollection start stop⟩ ::
      (Node.entryEvents o entries ++ [⟨.mappingEnd, o.point stop⟩])
  | .sequence start stop items =>
    ⟨.sequenceStart, o.ofCollection start stop⟩ ::
      (Node.itemEvents o items ++ [⟨.sequenceEnd, o.point stop⟩])

def Node.entryEvents (o : Offset) : List (Scalar × Node) → List Event
  | [] => []
  | (key, value) :: rest => key.event o :: (value.events o ++ Node.entryEvents o rest)

def Node.itemEvents (o : Offset) : List Node → List Event
  | [] => []
  | item :: rest => item.events o ++ Node.itemEvents o rest

end

/-- The events of one document, between its start and its end; the end has the place of the last
event. -/
def Document.events (file : FileId) (d : Document) : Except DocumentFault (List Event) := do
  let node ← Node.ofText d.text
  let start := Location.point file d.firstLine 0
  let body := node.events ⟨file, d.firstLine⟩
  let stop := (body.getLast?.map Event.location).getD start
  return ⟨.documentStart, start⟩ :: (body ++ [⟨.documentEnd, stop⟩])

/-- A file that does not fall into documents, reported where that shows. -/
def splitError (file : FileId) (name : String) : SplitFault → LoadError
  | .text failure =>
    let mark := OneTwo.failureMark failure
    ⟨.invalidStream failure, name, some (.point file mark.line mark.column)⟩
  | .lineMissing line => ⟨.lineMissing line, name, some (.point file line 0)⟩

/-- The events of the characters of a model file. -/
def eventsOf (file : FileId) (name : String) (text : List Char) :
    Except LoadError (List Event) := do
  let documents ← (Document.split text).mapError (splitError file name)
  let bodies ← documents.mapM fun d =>
    (d.events file).mapError fun fault =>
      (⟨.invalidDocument fault, name, some (.point file d.firstLine 0)⟩ : LoadError)
  return ⟨.streamStart, .point file 0 0⟩ ::
    (bodies.flatten ++ [⟨.streamEnd, .point file (Text.lines text).length 0⟩])

/-- The events of a model file. -/
def events (file : FileId) (name source : String) : Except LoadError (List Event) :=
  eventsOf file name source.toList

end EntityModel.Source
