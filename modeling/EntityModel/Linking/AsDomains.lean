import EntityModel.Linking.References
import EntityModel.Naming.Type

/-!
# Words behind `as`, and domains in use

A property with `as` must find that word in the domain that it would have without it, and exchanges
its domain for what stands there.

A domain is used once it is found by its name.  Names of domains are looked up twice: those that
references give, and, where a property exchanges its domain by a word, the name of the domain that
it comes to.  Of several domains with one name only the first is ever found.
-/

namespace EntityModel.Linking

def asDomainProblem (m : Model) (p : Property) : Option Diagnostic := do
  let word ← Model.asName p
  let d ← m.domain? (← m.baseDomain p.id)
  match (d.asDomains.lookup word.value).bind Reference.target with
  | some _ => none
  | none =>
    return { problem := .asDomainNotFound d.name.value word.value, location := word.location }

def asDomainProblems (m : Model) : List Diagnostic := m.properties.filterMap (asDomainProblem m)

/-- The name that a reference to a domain is looked up by. -/
def EntityReference.domainName? : EntityReference → Option String
  | domain r => some r.text
  | _ => none

/-- The name of the domain that a property comes to by the word behind `as`. -/
def exchangedDomainName (m : Model) (p : Property) : Option String := do
  let word ← Model.asName p
  let d ← m.domain? (← m.baseDomain p.id)
  let exchanged ← m.domain? (← (d.asDomains.lookup word.value).bind Reference.target)
  return exchanged.name.value

/-- The names that are looked up as those of domains.  Resolving aliases adds no reference to a
domain, so those of the linked model are the ones that were looked up. -/
def domainLookUps (m : Model) : List String :=
  (m.files.flatMap fileReferences).filterMap EntityReference.domainName?
    ++ m.properties.filterMap (exchangedDomainName m)

/-- The domains found by the look-ups. -/
def usedDomains (m : Model) : List DomainId := (domainLookUps m).filterMap (findDomain m)

def isDomainUsed (m : Model) (id : DomainId) : Bool := (usedDomains m).contains id

end EntityModel.Linking
