import EntityModel.Model.File
import EntityModel.Source.Reader

/-!
# Blocks of keys

Every block of the model language is a mapping with an explicit list of known keys.  A draft holds
what was read so far; a key sets one field of it, and finishing checks what the block must have.
-/

namespace EntityModel.Loading

open Source

def references {α : Type} (names : List (Located String)) : List (Reference α) :=
  names.map Reference.ofName

/-! ### The header of a file -/

structure Header where
  module : Option (Located String) := none
  tags : List String := []
  uses : List (Located String) := []
  options : EndpointOptions := {}

def endpointOptions : Read EndpointOptions :=
  Read.mapping (fun (o : EndpointOptions) key => do
    match key.value with
    | "fileName" => return { o with fileName := ← Read.optionalString }
    | "prefix" => return { o with routePrefix := ← Read.optionalString }
    | _ => Read.unknownKey .endpointOptions key) {}

def fileOptions : Read EndpointOptions :=
  Read.mapping (fun (_ : EndpointOptions) key => do
    match key.value with
    | "endpoints" => endpointOptions
    | _ => Read.unknownKey .options key) {}

def Header.set (h : Header) (key : Located String) : Read Header := do
  match key.value with
  | "module" => return { h with module := ← Read.optionalScalar }
  | "tags" => return { h with tags := ← Read.stringList }
  | "uses" => return { h with uses := ← Read.scalarList }
  | "options" => return { h with options := ← fileOptions }
  | _ => Read.unknownKey .header key

/-- The first document of a file, and the module that it must name. -/
def header (location : Location) : Read (Header × String) := do
  let h ← Read.mapping Header.set {}
  let module ← Read.require h.module .module location
  return (h, module.value)

/-! ### Domains -/

def domainImplementation : Read DomainImplementation :=
  Read.mapping (fun (i : DomainImplementation) key => do
    match key.value with
    | "type" => return { i with type := ← Read.optionalString }
    | "imports" => return { i with imports := ← Read.stringList }
    | "annotations" => return { i with annotations := ← Read.stringList }
    | _ => Read.unknownKey .domainImplementation key) {}

structure DomainDraft where
  name : Option (Located String) := none
  label : Option String := none
  length : Option Nat := none
  scale : Option Nat := none
  autoGeneratedValue : Bool := false
  mediaType : Option String := none
  bodyParam : Bool := false
  asDomains : OrderedMap DomainReference := []
  implementations : OrderedMap DomainImplementation := []

def DomainDraft.set (d : DomainDraft) (key : Located String) : Read DomainDraft := do
  match key.value with
  | "name" => return { d with name := ← Read.optionalScalar }
  | "label" => return { d with label := ← Read.optionalString }
  | "length" => return { d with length := some (← Read.number) }
  | "scale" => return { d with scale := some (← Read.number) }
  | "autoGeneratedValue" => return { d with autoGeneratedValue := ← Read.bool }
  | "mediaType" => return { d with mediaType := ← Read.optionalString }
  | "bodyParam" => return { d with bodyParam := ← Read.bool }
  | "asDomains" =>
    let asDomains ← Read.mapping (fun m as => do
      return OrderedMap.put m as.value (.ofName (← Read.scalar))) d.asDomains
    return { d with asDomains }
  | language =>
    if domainLanguages.contains language then
      return { d with implementations := d.implementations.put language (← domainImplementation) }
    else Read.unknownKey .domain key

def domain (id : DomainId) (location : Location) : Read Domain := do
  let d ← Read.mapping DomainDraft.set {}
  let name ← Read.require d.name .domainName location
  return {
    id, name, location
    label := d.label
    length := d.length
    scale := d.scale
    autoGeneratedValue := d.autoGeneratedValue
    mediaType := d.mediaType
    bodyParam := d.bodyParam
    asDomains := d.asDomains
    implementations := d.implementations }

/-! ### Aliases of files -/

structure AliasDraft where
  file : Option (Located String) := none
  classes : Option (List ClassReference) := none
  endpoints : Option (List EndpointReference) := none

def AliasDraft.set (d : AliasDraft) (key : Located String) : Read AliasDraft := do
  match key.value with
  | "file" => return { d with file := ← Read.optionalScalar }
  | "classes" => return { d with classes := some (references (← Read.scalarList)) }
  | "endpoints" => return { d with endpoints := some (references (← Read.scalarList)) }
  | _ => Read.unknownKey .fileAlias key

def fileAlias (id : AliasId) (location : Location) : Read Alias := do
  let d ← Read.mapping AliasDraft.set {}
  let file ← Read.require d.file .aliasFile location
  return { id, location, file := .ofName file, classes := d.classes, endpoints := d.endpoints }

end EntityModel.Loading
