import EntityModel.Text.Characters

/-!
# Kinds of diagnostics

Every kind has a code that settings and readers know it by.  Two kinds are warnings; all others keep
a model from being generated.
-/

namespace EntityModel

inductive Severity
  | error
  | warning
deriving Repr, DecidableEq

inductive DiagnosticKind
  /-- A file did not load. -/
  | invalidFile
  | compositePrimaryKey
  | duplicateUse
  | duplicateEndpoint
  | duplicateProperty
  | duplicateClass
  | duplicateDomain
  | duplicateDecorator
  | circularInheritance
  | circularAlias
  /-- Files that use each other. -/
  | circularDependency
  /-- A query parameter before one of the route or the body. -/
  | invalidParameterOrder
  | missingRequiredValue
  /-- An association to a class without a single primary key. -/
  | invalidAssociationTarget
  | classNotFound
  | fileNotFound
  | asDomainNotFound
  | domainNotFound
  | endpointNotFound
  | decoratorNotFound
  | propertyNotFound
  /-- Several base classes in one language. -/
  | decoratorExtendsConflict
  | uniqueKeyPropertyNotFound
  | unusedImport
  | duplicateTrigram
  | unusedDomain
deriving Repr, DecidableEq

namespace DiagnosticKind

/-- All kinds, in the order of their codes. -/
def all : List DiagnosticKind := [
  invalidFile, compositePrimaryKey, duplicateUse, duplicateEndpoint, duplicateProperty,
  duplicateClass, duplicateDomain, duplicateDecorator, circularInheritance, circularAlias,
  circularDependency, invalidParameterOrder, missingRequiredValue, invalidAssociationTarget,
  classNotFound, fileNotFound, asDomainNotFound, domainNotFound, endpointNotFound,
  decoratorNotFound, propertyNotFound, decoratorExtendsConflict, uniqueKeyPropertyNotFound,
  unusedImport, duplicateTrigram, unusedDomain]

/-- The name of a kind, by which documentation lists it. -/
def name : DiagnosticKind → String
  | invalidFile => "InvalidFile"
  | compositePrimaryKey => "CompositePrimaryKey"
  | duplicateUse => "DuplicateUse"
  | duplicateEndpoint => "DuplicateEndpoint"
  | duplicateProperty => "DuplicateProperty"
  | duplicateClass => "DuplicateClass"
  | duplicateDomain => "DuplicateDomain"
  | duplicateDecorator => "DuplicateDecorator"
  | circularInheritance => "CircularInheritance"
  | circularAlias => "CircularAlias"
  | circularDependency => "CircularDependency"
  | invalidParameterOrder => "InvalidParameterOrder"
  | missingRequiredValue => "MissingRequiredValue"
  | invalidAssociationTarget => "InvalidAssociationTarget"
  | classNotFound => "ClassNotFound"
  | fileNotFound => "FileNotFound"
  | asDomainNotFound => "AsDomainNotFound"
  | domainNotFound => "DomainNotFound"
  | endpointNotFound => "EndpointNotFound"
  | decoratorNotFound => "DecoratorNotFound"
  | propertyNotFound => "PropertyNotFound"
  | decoratorExtendsConflict => "DecoratorExtendsConflict"
  | uniqueKeyPropertyNotFound => "UniqueKeyPropertyNotFound"
  | unusedImport => "UnusedImport"
  | duplicateTrigram => "DuplicateTrigram"
  | unusedDomain => "UnusedDomain"

def code : DiagnosticKind → String
  | invalidFile => "TMD0000"
  | compositePrimaryKey => "TMD0001"
  | duplicateUse => "TMD0002"
  | duplicateEndpoint => "TMD0003"
  | duplicateProperty => "TMD0004"
  | duplicateClass => "TMD0005"
  | duplicateDomain => "TMD0006"
  | duplicateDecorator => "TMD0007"
  | circularInheritance => "TMD0008"
  | circularAlias => "TMD0009"
  | circularDependency => "TMD0010"
  | invalidParameterOrder => "TMD0011"
  | missingRequiredValue => "TMD0012"
  | invalidAssociationTarget => "TMD1001"
  | classNotFound => "TMD1002"
  | fileNotFound => "TMD1003"
  | asDomainNotFound => "TMD1004"
  | domainNotFound => "TMD1005"
  | endpointNotFound => "TMD1006"
  | decoratorNotFound => "TMD1007"
  | propertyNotFound => "TMD1008"
  | decoratorExtendsConflict => "TMD1010"
  | uniqueKeyPropertyNotFound => "TMD1011"
  | unusedImport => "TMD9001"
  | duplicateTrigram => "TMD9002"
  | unusedDomain => "TMD9004"

def severity : DiagnosticKind → Severity
  | unusedImport | unusedDomain => .warning
  | _ => .error

def ofCode? (code : String) : Option DiagnosticKind := all.find? (·.code == code)

/-- Reads a code with blanks around it. -/
def parse? (text : String) : Option DiagnosticKind :=
  ofCode? (String.ofList (Text.trim text.toList))

/-- What is said about a text that is no code. -/
def unknownCodeMessage (text : String) : String := s!"unknown error code '{text}'"

end DiagnosticKind

end EntityModel
