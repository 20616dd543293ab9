import EntityModel.Linking.Aliases
import EntityModel.Linking.AsDomains
import EntityModel.Linking.PropertyReferences
import EntityModel.Linking.References
import EntityModel.Validation.Checks

/-!
# Linking

Linking turns loaded files into a model whose references know what they stand for.  It runs in
stages, each a function on models: uses, aliases of files, references by name, aliases of
properties, and last the properties that classes name.  What is wrong is read off the model after
each stage, so linking always comes to an end and reports everything, last what is not used.
-/

namespace EntityModel

/-- A linked model with what was found wrong, in order of discovery. -/
structure Linked where
  model : Model
  problems : List Diagnostic
deriving Repr

namespace Validation

/-- What is wrong with a model whose references are resolved. -/
def problems (m : Model) (rules : NamingRules) : List Diagnostic :=
  duplicates m ++ m.classes.flatMap (classProblems m rules)
    ++ m.properties.filterMap (associationProblem m)
    ++ m.endpoints.flatMap (parameterProblems m rules)

end Validation

namespace Linking

/-- The references by name: uses, aliases of files, and all that is looked up in scopes. -/
def linkNames (m : Model) : Linked :=
  let used := resolveUses m
  let aliased := resolveFileAliases used
  let resolved := resolveReferences aliased
  { model := noteUselessUses resolved
    problems :=
      useProblems used ++ circularUses used ++ fileAliasProblems aliased
        ++ referenceProblems resolved
        ++ inheritanceCycles resolved }

/-- The references to properties, in a model whose references by name are resolved. -/
def linkProperties (rules : NamingRules) (m : Model) : Linked :=
  let aliases := resolveAliases rules m
  let associated := resolveAssociations rules false aliases.model
  let complete := resolvePropertyReferences rules associated
  { model := complete
    problems :=
      aliases.problems ++ associationProblems associated ++ propertyReferenceProblems complete
        ++ asDomainProblems complete }

def unusedProblems (m : Model) : List Diagnostic :=
  m.files.flatMap fun f =>
    (f.uselessImports.map fun use =>
      { problem := .unusedImport use.text, location := use.location })
      ++ (f.domains.filter fun d => !isDomainUsed m d.id).map fun d =>
        { problem := .unusedDomain d.name.value, location := d.name.location }

end Linking

/-- Links a model of loaded files. -/
def Model.link (m : Model) (rules : NamingRules) : Linked :=
  let names := Linking.linkNames m
  let properties := Linking.linkProperties rules names.model
  { model := properties.model
    problems :=
      names.problems ++ properties.problems ++ Validation.problems properties.model rules
        ++ Linking.unusedProblems properties.model }

end EntityModel
