import EntityModel.Loading.Entity
import EntityModel.Source.Events

/-!
# Loading a model file

A file is a header and one document for each entity.  References are only recorded here: what they
stand for is found when all files are loaded.  A file that holds nothing but separators and comments
is no model file.
-/

namespace EntityModel.Loading

open Source

/-- Reads one entity and puts it last in its list; its id is its place there. -/
def entity (ctx : Context) (f : ModelFile) : Read ModelFile := do
  let _ ← Read.expect .mappingStart
  let kind ← Read.scalar
  let location := kind.location
  let f ←
    match kind.value with
    | "domain" => do
      let d ← domain ⟨ctx.file, f.domains.length⟩ location
      pure { f with domains := f.domains ++ [d] }
    | "decorator" => do
      let d ← decorator ctx ⟨ctx.file, f.decorators.length⟩ location
      pure { f with decorators := f.decorators ++ [d] }
    | "class" => do
      let c ← cls ctx ⟨ctx.file, f.classes.length⟩ location
      pure { f with classes := f.classes ++ [c] }
    | "endpoint" => do
      let e ← endpoint ctx ⟨ctx.file, f.endpoints.length⟩ location
      pure { f with endpoints := f.endpoints ++ [e] }
    | "alias" => do
      let a ← fileAlias ⟨ctx.file, f.aliases.length⟩ location
      pure { f with aliases := f.aliases ++ [a] }
    | other => Read.fail (.unknownDocument other) location
  if ← Read.consumeIf .mappingEnd then return f
  Read.fail .severalEntities (← Read.location)

/-- The documents behind the header. -/
def entities (ctx : Context) : Nat → ModelFile → Read ModelFile
  | 0, f => pure f
  | fuel + 1, f => do
    if ← Read.consumeIf .documentStart then
      let f ← entity ctx f
      let _ ← Read.expect .documentEnd
      entities ctx fuel f
    else return f

/-- A whole file. -/
def file (id : FileId) (name app : String) (naming : NamingRules) : Read (Option ModelFile) := do
  let _ ← Read.expect .streamStart
  if ← Read.consumeIf .streamEnd then return none
  let start ← Read.expect .documentStart
  let (h, modulePath) ← header start.location
  let _ ← Read.expect .documentEnd
  let ns : Namespace := ⟨app, modulePath⟩
  let f : ModelFile :=
    { id, name, ns, tags := h.tags, uses := references h.uses, endpointOptions := h.options }
  let f ← entities ⟨id, ns, naming⟩ ((← get).rest.length + 1) f
  let _ ← Read.expect .streamEnd
  return some f

end Loading

/-- The model file that events make up, if they make up one. -/
def ModelFile.ofEvents (id : FileId) (name app : String) (naming : NamingRules)
    (events : List Source.Event) :
    Except Source.LoadError (Option ModelFile) :=
  match (Loading.file id name app naming).run (.ofEvents name events) with
  | .ok f _ => .ok f
  | .error e _ => .error e

/-- The model file that a text holds, if it holds one. -/
def ModelFile.load (id : FileId) (name source app : String) (naming : NamingRules) :
    Except Source.LoadError (Option ModelFile) := do
  let events ← Source.events id name source
  ofEvents id name app naming events

end EntityModel
