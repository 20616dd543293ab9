import EntityModel.Source.Position

/-!
# Events of a model file

What a model file holds, as the loader walks over it: the documents in order and the nodes of each,
every event with its place in the file.
-/

namespace EntityModel.Source

inductive EventKind
  | streamStart
  | streamEnd
  | documentStart
  | documentEnd
  | mappingStart
  | mappingEnd
  | sequenceStart
  | sequenceEnd
  | scalar (text : String)
deriving Repr, DecidableEq

namespace EventKind

/-- The same kind, whatever the scalars say. -/
def alike : EventKind → EventKind → Bool
  | scalar _, scalar _ => true
  | a, b => a == b

/-- The name of a kind in messages. -/
def display : EventKind → String
  | streamStart => "début de flux"
  | streamEnd => "fin de flux"
  | documentStart => "début de document"
  | documentEnd => "fin de document"
  | mappingStart => "objet"
  | mappingEnd => "fin d'objet"
  | sequenceStart => "liste"
  | sequenceEnd => "fin de liste"
  | scalar _ => "valeur"

/-- The same, with the text of a scalar. -/
def found : EventKind → String
  | scalar text => "'" ++ text ++ "'"
  | kind => kind.display

end EventKind

structure Event where
  kind : EventKind
  location : Location
deriving Repr, DecidableEq

end EntityModel.Source
