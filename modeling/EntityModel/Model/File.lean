import EntityModel.Model.Entity
import EntityModel.Path.Basic

/-!
# Model files

Everything that one file declares, and what linking finds out about the file as a whole.
-/

namespace EntityModel

structure EndpointOptions where
  fileName : Option String := none
  routePrefix : Option String := none
deriving Repr, DecidableEq

structure ModelFile where
  id : FileId
  /-- The name below the model root, without extension. -/
  name : String
  /-- Where the file was read from. -/
  path : Option Path := none
  ns : Namespace
  tags : List String := []
  uses : List FileReference := []
  endpointOptions : EndpointOptions := {}
  domains : List Domain := []
  decorators : List Decorator := []
  classes : List Class := []
  endpoints : List Endpoint := []
  aliases : List Alias := []
  /-- What the aliases bring in, found by linking. -/
  resolvedAliases : List ResolvedAlias := []
  /-- The uses that nothing in the file needs, found by linking. -/
  uselessImports : List FileReference := []
deriving Repr, DecidableEq

namespace ModelFile

def modulePath (f : ModelFile) : String := f.ns.modulePath

def aliasedClasses (f : ModelFile) : List ClassId :=
  f.resolvedAliases.filterMap fun a =>
    match a.entity with
    | .cls id => some id
    | .endpoint _ => none

def aliasedEndpoints (f : ModelFile) : List EndpointId :=
  f.resolvedAliases.filterMap fun a =>
    match a.entity with
    | .cls _ => none
    | .endpoint id => some id

/-- Declares nothing. -/
def isEmpty (f : ModelFile) : Bool :=
  f.domains.isEmpty && f.decorators.isEmpty && f.classes.isEmpty && f.endpoints.isEmpty
    && f.aliases.isEmpty

end ModelFile

/-- The switches that names depend on. -/
structure NamingRules where
  pluralizeTableNames : Bool := false
  useLegacyRoleNames : Bool := false
  allowCompositePrimaryKey : Bool := false
deriving Repr, DecidableEq

end EntityModel
