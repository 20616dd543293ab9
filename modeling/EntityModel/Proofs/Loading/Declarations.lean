import EntityModel.Loading.File
import EntityModel.Proofs.Loading.Grammar

/-!
# What the documents of a file declare

A document behind the header declares one thing, under the key that tells its kind.  A file that
takes it up puts it last in the list of that kind and leaves the other lists alone.
-/

namespace EntityModel

open Source

inductive Declaration
  | domain (d : Domain)
  | decorator (d : Decorator)
  | cls (c : Class)
  | endpoint (e : Endpoint)
  | fileAlias (a : Alias)
deriving Repr, DecidableEq

namespace Declaration

/-- The key of the document. -/
def word : Declaration → String
  | domain _ => "domain"
  | decorator _ => "decorator"
  | cls _ => "class"
  | endpoint _ => "endpoint"
  | fileAlias _ => "alias"

def location : Declaration → Location
  | domain d => d.location
  | decorator d => d.location
  | cls c => c.location
  | endpoint e => e.location
  | fileAlias a => a.location

/-- The key that it must have, and what it says there: a name, or the file that an alias looks
into. -/
def title : Declaration → String × String
  | domain d => ("name", d.name.value)
  | decorator d => ("name", d.name.value)
  | cls c => ("name", c.name.value)
  | endpoint e => ("name", e.name.value)
  | fileAlias a => ("file", a.file.text)

def ns? : Declaration → Option Namespace
  | decorator d => some d.ns
  | cls c => some c.ns
  | endpoint e => some e.ns
  | _ => none

def domain? : Declaration → Option Domain
  | domain d => some d
  | _ => none

def decorator? : Declaration → Option Decorator
  | decorator d => some d
  | _ => none

def cls? : Declaration → Option Class
  | cls c => some c
  | _ => none

def endpoint? : Declaration → Option Endpoint
  | endpoint e => some e
  | _ => none

def fileAlias? : Declaration → Option Alias
  | fileAlias a => some a
  | _ => none

theorem ns?_of_cls? {x : Declaration} {c : Class} (h : x.cls? = some c) : x.ns? = some c.ns := by
  cases x with
  | cls c' => exact congrArg (fun c => some c.ns) (Option.some.inj h)
  | _ => exact nomatch h

theorem ns?_of_endpoint? {x : Declaration} {e : Endpoint} (h : x.endpoint? = some e) :
    x.ns? = some e.ns := by
  cases x with
  | endpoint e' => exact congrArg (fun e => some e.ns) (Option.some.inj h)
  | _ => exact nomatch h

end Declaration

def ModelFile.declare (f : ModelFile) : Declaration → ModelFile
  | .domain d => { f with domains := f.domains ++ [d] }
  | .decorator d => { f with decorators := f.decorators ++ [d] }
  | .cls c => { f with classes := f.classes ++ [c] }
  | .endpoint e => { f with endpoints := f.endpoints ++ [e] }
  | .fileAlias a => { f with aliases := f.aliases ++ [a] }

/-- The five lists of a file hold what is declared and nothing else, in order. -/
structure ModelFile.Holds (f : ModelFile) (declared : List Declaration) : Prop where
  domains : f.domains = declared.filterMap Declaration.domain?
  decorators : f.decorators = declared.filterMap Declaration.decorator?
  classes : f.classes = declared.filterMap Declaration.cls?
  endpoints : f.endpoints = declared.filterMap Declaration.endpoint?
  aliases : f.aliases = declared.filterMap Declaration.fileAlias?

theorem ModelFile.Holds.nil {id : FileId} {name : String} {ns : Namespace} {tags : List String}
    {uses : List FileReference} {options : EndpointOptions} :
    Holds { id, name, ns, tags, uses, endpointOptions := options } [] := ⟨rfl, rfl, rfl, rfl, rfl⟩

theorem ModelFile.Holds.declare {f : ModelFile} {declared : List Declaration} (h : f.Holds declared)
    (x : Declaration) :
    (f.declare x).Holds (declared ++ [x]) := by
  obtain ⟨hdomains, hdecorators, hclasses, hendpoints, haliases⟩ := h
  cases x <;> constructor <;>
    simp [ModelFile.declare, Declaration.domain?, Declaration.decorator?, Declaration.cls?,
      Declaration.endpoint?, Declaration.fileAlias?, *]

theorem ModelFile.Holds.foldl {f : ModelFile} {declared : List Declaration} (h : f.Holds declared)
    (xs : List Declaration) :
    (xs.foldl ModelFile.declare f).Holds (declared ++ xs) := by
  induction xs generalizing f declared with
  | nil => rwa [List.append_nil]
  | cons x xs ih =>
    have := ih (h.declare x)
    rwa [List.append_assoc] at this

theorem ModelFile.ns_foldl_declare (xs : List Declaration) :
    ∀ f : ModelFile, (xs.foldl ModelFile.declare f).ns = f.ns := by
  induction xs with
  | nil => exact fun _ => rfl
  | cons x xs ih => exact fun f => (ih _).trans (by cases x <;> rfl)

/-- The document with this tree declares `x`, at its one key. -/
structure Declares (ns : Namespace) (o : Offset) (root : Node) (x : Declaration) : Prop where
  entry : ∃ start stop key value, root = .mapping start stop [(key, value)] ∧ key.text = x.word ∧
    x.location = o.ofScalar key ∧ Grammar.text? x.title.1 (Grammar.entriesOf value) = some x.title.2
  ns : ∀ n ∈ x.ns?, n = ns

end EntityModel
