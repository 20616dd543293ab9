import EntityModel.Source.Reader
import EntityModel.Source.Document
import EntityModel.Model.Entity

/-!
# The model language

What a model file may say, told of the trees of its documents and not of the events that a reader
walks over.  A block is a mapping with a table of the keys it knows and of the shape that the value
of each must have; beyond that a block asks for some keys to be present, and properties and classes
for conditions on several keys together.

A scalar that is `~`, `null` or empty is no value: a key that holds one is not present.
-/

namespace EntityModel.Grammar

open Source

abbrev Entry := Scalar × Node

/-! ### Scalars -/

/-- What a scalar is written as. -/
def literal? : Node → Option String
  | .scalar s => some s.text
  | _ => none

/-- What a scalar stands for, if it stands for something. -/
def stated? (node : Node) : Option String :=
  (literal? node).filter fun text => !(["~", "null", ""].contains text)

def isScalar (node : Node) : Bool := (literal? node).isSome

def isScalarOf (test : String → Bool) (node : Node) : Bool := (literal? node).any test

def saysTrue (text : String) : Bool := ["true", "True", "TRUE"].contains text

def saysFalse (text : String) : Bool := ["false", "False", "FALSE"].contains text

def isBoolean : Node → Bool := isScalarOf fun text => saysTrue text || saysFalse text

def isNumber : Node → Bool := isScalarOf fun text => (Read.number? text).isSome

def isCardinality : Node → Bool := isScalarOf fun text => (Cardinality.ofName? text).isSome

def isMethod : Node → Bool := isScalarOf fun text => (HttpMethod.ofName? text).isSome

/-! ### Collections -/

def itemsOf : Node → List Node
  | .sequence _ _ items => items
  | _ => []

def entriesOf : Node → List Entry
  | .mapping _ _ entries => entries
  | _ => []

def listOf (shape : Node → Bool) : Node → Bool
  | .sequence _ _ items => items.all shape
  | _ => false

def scalars (node : Node) : Bool := isScalar node || listOf isScalar node

def mappingOf (test : List Entry → Bool) : Node → Bool
  | .mapping _ _ entries => test entries
  | _ => false

def mapOf (shape : Node → Bool) : Node → Bool :=
  mappingOf fun entries => entries.all fun e => shape e.2

/-! ### Blocks -/

/-- The keys that a block knows, each with the shape of its value. -/
abbrev Keys := List (String × (Node → Bool))

def fits (keys : Keys) (key : String) (value : Node) : Bool :=
  (keys.lookup key).any fun shape => shape value

def known (keys : Keys) (entries : List Entry) : Bool := entries.all fun e => fits keys e.1.text e.2

/-- The value of a key; where the key comes again, the last one. -/
def value? (key : String) (entries : List Entry) : Option Node :=
  (entries.reverse.find? (·.1.text == key)).map Prod.snd

def text? (key : String) (entries : List Entry) : Option String := (value? key entries).bind stated?

def present (key : String) (entries : List Entry) : Bool := (text? key entries).isSome

/-- The key holds a word for true. -/
def flag (key : String) (entries : List Entry) : Bool :=
  (value? key entries).any (isScalarOf saysTrue)

/-- A block with the keys that it must have. -/
def block (keys : Keys) (required : List String) : Node → Bool :=
  mappingOf fun entries => known keys entries && required.all (present · entries)

/-! ### The header of a file -/

def endpointOptionsKeys : Keys := [("fileName", isScalar), ("prefix", isScalar)]

def optionsKeys : Keys := [("endpoints", block endpointOptionsKeys [])]

def headerKeys : Keys :=
  [("module", isScalar), ("tags", scalars), ("uses", scalars), ("options", block optionsKeys [])]

def header : Node → Bool := block headerKeys ["module"]

/-! ### Domains -/

def domainImplementationKeys : Keys :=
  [("type", isScalar), ("imports", scalars), ("annotations", scalars)]

def domainKeys : Keys :=
  [("name", isScalar), ("label", isScalar), ("length", isNumber), ("scale", isNumber),
    ("autoGeneratedValue", isBoolean), ("mediaType", isScalar), ("bodyParam", isBoolean),
    ("asDomains", mapOf isScalar)]
  ++ domainLanguages.map (·, block domainImplementationKeys [])

def domain : Node → Bool := block domainKeys ["name"]

/-! ### Aliases of files -/

def fileAliasKeys : Keys := [("file", isScalar), ("classes", scalars), ("endpoints", scalars)]

def fileAlias : Node → Bool := block fileAliasKeys ["file"]

/-! ### Properties -/

def regularKeys : Keys :=
  [("name", isScalar), ("label", isScalar), ("comment", isScalar), ("primaryKey", isBoolean),
    ("required", isBoolean), ("domain", isScalar), ("defaultValue", isScalar),
    ("readonly", isBoolean)]

def associationKeys : Keys :=
  [("type", isCardinality), ("role", isScalar), ("name", isScalar), ("label", isScalar),
    ("comment", isScalar), ("primaryKey", isBoolean), ("required", isBoolean),
    ("defaultValue", isScalar), ("readonly", isBoolean), ("as", isScalar), ("property", isScalar),
    ("trigram", isScalar)]

def compositionKeys : Keys :=
  [("name", isScalar), ("domain", isScalar), ("label", isScalar), ("comment", isScalar)]

def aliasTargetKeys : Keys :=
  [("class", isScalar), ("property", isScalar), ("include", scalars), ("exclude", scalars)]

def propertyAliasKeys : Keys :=
  [("name", isScalar), ("prefix", isScalar), ("suffix", isScalar), ("label", isScalar),
    ("comment", isScalar), ("required", isBoolean), ("defaultValue", isScalar),
    ("readonly", isBoolean), ("as", isScalar)]

/-- A list of scalars has items, or a scalar alone stands for something. -/
def chooses (node : Node) : Bool := (stated? node).isSome || !(itemsOf node).isEmpty

/-- One property of a class, or a choice of them, but not both. -/
def selects (entries : List Entry) : Bool :=
  !(present "property" entries &&
    ((value? "include" entries).any chooses || (value? "exclude" entries).any chooses))

def aliasTarget : Node → Bool :=
  mappingOf fun entries => known aliasTargetKeys entries && present "class" entries
    && selects entries

def kindKeys : List String := ["association", "composition", "alias"]

/-- A property; its first key tells which keys it knows. -/
def property : Node → Bool
  | .mapping _ _ (first :: rest) =>
    match first.1.text with
    | "association" => isScalar first.2 && known associationKeys rest
    | "composition" => isScalar first.2 && known compositionKeys rest && present "name" rest
    | "alias" => aliasTarget first.2 && known propertyAliasKeys rest
    | _ =>
      known regularKeys (first :: rest) && present "name" (first :: rest)
        && present "domain" (first :: rest)
  | _ => false

/-- The name of a regular property that is required and no key. -/
def requiredName? (node : Node) : Option String :=
  match entriesOf node with
  | [] => none
  | first :: rest =>
    if kindKeys.contains first.1.text then none
    else if flag "required" (first :: rest) && !flag "primaryKey" (first :: rest) then
      text? "name" (first :: rest)
    else none

/-! ### Decorators -/

def decoratorImplementationKeys : Keys :=
  [("extends", isScalar), ("implements", scalars), ("annotations", scalars)]

def decoratorKeys : Keys :=
  [("name", isScalar), ("description", isScalar), ("properties", listOf property)]
  ++ decoratorLanguages.map (·, block decoratorImplementationKeys [])

def decorator : Node → Bool := block decoratorKeys ["name"]

/-! ### Classes -/

def usageKeys : Keys := [("decorator", isScalar), ("parameters", scalars)]

/-- A decorator by its name alone, or in a block that names it.  A name that stands alone is taken
as it is written. -/
def decoratorUsage (node : Node) : Bool := isScalar node || block usageKeys ["decorator"] node

def classKeys : Keys :=
  [("name", isScalar), ("trigram", isScalar), ("sqlName", isScalar), ("pluralName", isScalar),
    ("label", isScalar), ("comment", isScalar), ("extends", isScalar), ("reference", isBoolean),
    ("abstract", isBoolean), ("decorators", listOf decoratorUsage), ("properties", listOf property),
    ("unique", listOf scalars), ("values", mapOf (mapOf isScalar)), ("defaultProperty", isScalar),
    ("orderProperty", isScalar), ("flagProperty", isScalar)]

/-- No `values` come before the first `properties`. -/
def valuesBehind (entries : List Entry) : Bool :=
  (entries.takeWhile (·.1.text != "properties")).all (·.1.text != "values")

/-- The fields that every value of a class must set. -/
def requiredNames (entries : List Entry) : List String :=
  (((value? "properties" entries).map itemsOf).getD []).filterMap requiredName?

def sets (value : Node) (field : String) : Bool :=
  (entriesOf value).any fun e => e.1.text == field && (stated? e.2).isSome

def valuesOf (entries : List Entry) : List Node :=
  ((value? "values" entries).map entriesOf).getD [] |>.map Prod.snd

def valuesComplete (entries : List Entry) : Bool :=
  (valuesOf entries).all fun value => (requiredNames entries).all (sets value)

def cls : Node → Bool :=
  mappingOf fun entries =>
    known classKeys entries && valuesBehind entries && present "name" entries
      && valuesComplete entries

/-! ### Endpoints -/

def endpointKeys : Keys :=
  [("name", isScalar), ("method", isMethod), ("route", isScalar), ("description", isScalar),
    ("params", listOf property), ("returns", property), ("preservePropertyCasing", isBoolean)]

def endpoint : Node → Bool := block endpointKeys ["name", "method"]

/-! ### Files -/

def entityKeys : Keys :=
  [("domain", domain), ("decorator", decorator), ("class", cls), ("endpoint", endpoint),
    ("alias", fileAlias)]

/-- A document that declares one entity. -/
def entity : Node → Bool
  | .mapping _ _ [e] => fits entityKeys e.1.text e.2
  | _ => false

/-- The documents of a file: a header, then entities. -/
def file : List Node → Bool
  | [] => false
  | first :: rest => header first && rest.all entity

end EntityModel.Grammar
