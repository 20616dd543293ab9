import EntityModel.Diagnostics.Kind
import EntityModel.Source.Registry
import EntityModel.Source.LoadError

/-!
# Diagnostics

What linking finds wrong never stops it.  Each finding is a problem with the place that it is about,
and sometimes another place that explains it.
-/

namespace EntityModel

/-- What is wrong.  Names are kept as they are written in the files. -/
inductive Problem
  | invalidFile (error : Source.LoadError)
  | duplicateUse (file : String)
  | fileNotFound (file : String)
  | circularUses (chain : List String)
  | classNotInFile (cls file : String)
  | endpointNotInFile (endpoint file : String)
  | classNotFound (cls : String)
  | decoratorNotFound (decorator : String)
  | domainNotFound (domain : String)
  | inheritsFromItself (cls : String)
  | propertyNotFound (property cls : String)
  | uniqueKeyPropertyNotFound (property cls : String)
  | circularAliasTo (cls property : String)
  | circularAlias
  /-- An endpoint returns one property, but the alias stands for none or several. -/
  | severalReturned
  | asDomainNotFound (domain word : String)
  | duplicateClass (cls modulePath : String)
  | duplicateDecorator (decorator : String)
  | duplicateDomain (domain : String)
  | duplicateEndpoint (endpoint modulePath : String)
  | duplicateTrigram (trigram cls first : String)
  | duplicateProperty (property cls : String)
  | compositePrimaryKey (cls : String)
  | invalidAssociationTarget (cls : String)
  | severalBases (cls language : String)
  | missingRequiredValue (value cls property : String)
  | parameterOrder (parameter endpoint : String)
  | unusedImport (file : String)
  | unusedDomain (domain : String)
  /-- Found elsewhere and worded there. -/
  | stated (kind : DiagnosticKind) (message : String)
deriving Repr

namespace Problem

def kind : Problem → DiagnosticKind
  | invalidFile _ => .invalidFile
  | duplicateUse _ => .duplicateUse
  | fileNotFound _ => .fileNotFound
  | circularUses _ => .circularDependency
  | classNotInFile _ _ | classNotFound _ => .classNotFound
  | endpointNotInFile _ _ => .endpointNotFound
  | decoratorNotFound _ => .decoratorNotFound
  | domainNotFound _ => .domainNotFound
  | inheritsFromItself _ => .circularInheritance
  | propertyNotFound _ _ | severalReturned => .propertyNotFound
  | uniqueKeyPropertyNotFound _ _ => .uniqueKeyPropertyNotFound
  | circularAliasTo _ _ | circularAlias => .circularAlias
  | asDomainNotFound _ _ => .asDomainNotFound
  | duplicateClass _ _ => .duplicateClass
  | duplicateDecorator _ => .duplicateDecorator
  | duplicateDomain _ => .duplicateDomain
  | duplicateEndpoint _ _ => .duplicateEndpoint
  | duplicateTrigram _ _ _ => .duplicateTrigram
  | duplicateProperty _ _ => .duplicateProperty
  | compositePrimaryKey _ => .compositePrimaryKey
  | invalidAssociationTarget _ => .invalidAssociationTarget
  | severalBases _ _ => .decoratorExtendsConflict
  | missingRequiredValue _ _ _ => .missingRequiredValue
  | parameterOrder _ _ => .invalidParameterOrder
  | unusedImport _ => .unusedImport
  | unusedDomain _ => .unusedDomain
  | stated kind _ => kind

def message : Problem → String
  | invalidFile error => error.display
  | duplicateUse file => s!"Le fichier '{file}' est importé plusieurs fois."
  | fileNotFound file => s!"Le fichier '{file}' est introuvable."
  | circularUses chain => "Dépendance circulaire entre fichiers : "
    ++ " -> ".intercalate chain ++ "."
  | classNotInFile cls file => s!"La classe '{cls}' est introuvable dans le fichier '{file}'."
  | endpointNotInFile endpoint file =>
    s!"L'endpoint '{endpoint}' est introuvable dans le fichier '{file}'."
  | classNotFound cls => s!"La classe '{cls}' est introuvable dans le fichier ou ses dépendances."
  | decoratorNotFound decorator =>
    s!"Le décorateur '{decorator}' est introuvable dans le fichier ou ses dépendances."
  | domainNotFound domain => s!"Le domaine '{domain}' est introuvable."
  | inheritsFromItself cls => s!"La classe '{cls}' hérite d'elle-même."
  | propertyNotFound property cls | uniqueKeyPropertyNotFound property cls =>
    s!"La propriété '{property}' est introuvable sur la classe '{cls}'."
  | circularAliasTo cls property =>
    s!"L'alias vers '{cls}.{property}' forme une référence circulaire."
  | circularAlias => "Cet alias fait partie d'une référence circulaire entre alias."
  | severalReturned => "Le retour d'un endpoint doit désigner une seule propriété."
  | asDomainNotFound domain word =>
    s!"Le domaine '{domain}' ne définit pas de domaine '{word}' dans 'asDomains'."
  | duplicateClass cls modulePath =>
    s!"La classe '{cls}' est déjà définie dans le module '{modulePath}'."
  | duplicateDecorator decorator => s!"Le décorateur '{decorator}' est déjà défini."
  | duplicateDomain domain => s!"Le domaine '{domain}' est déjà défini."
  | duplicateEndpoint endpoint modulePath =>
    s!"L'endpoint '{endpoint}' est déjà défini dans le module '{modulePath}'."
  | duplicateTrigram trigram cls first =>
    s!"Le trigramme '{trigram}' de la classe '{cls}' est déjà utilisé par la classe '{first}'."
  | duplicateProperty property cls =>
    s!"La propriété '{property}' est déjà définie sur la classe '{cls}'."
  | compositePrimaryKey cls =>
    s!"La classe '{cls}' a plusieurs clés primaires, ce qui n'est pas autorisé."
  | invalidAssociationTarget cls =>
    s!"La classe '{cls}' doit avoir une et une seule clé primaire pour être la cible d'une association."
  | severalBases cls language =>
    s!"La classe '{cls}' hérite de plusieurs classes en '{language}' (via 'extends' ou ses décorateurs)."
  | missingRequiredValue value cls property =>
    s!"La valeur '{value}' de la classe '{cls}' doit initialiser la propriété obligatoire '{property}'."
  | parameterOrder parameter endpoint =>
    s!"Le paramètre '{parameter}' de l'endpoint '{endpoint}' doit être déclaré avant les paramètres de query."
  | unusedImport file => s!"L'import '{file}' n'est pas utilisé."
  | unusedDomain domain => s!"Le domaine '{domain}' n'est pas utilisé."
  | stated _ message => message

end Problem

/-- Why another place is shown beside the one of a diagnostic. -/
inductive RelatedReason
  | firstDefinition
  | trigramOf (cls : String)
deriving Repr, DecidableEq

def RelatedReason.message : RelatedReason → String
  | firstDefinition => "Première définition"
  | trigramOf cls => s!"Trigramme de la classe '{cls}'"

structure Diagnostic where
  problem : Problem
  location : Location
  related : List (Location × RelatedReason) := []
deriving Repr

namespace Diagnostic

def kind (d : Diagnostic) : DiagnosticKind := d.problem.kind

def message (d : Diagnostic) : String := d.problem.message

def file (d : Diagnostic) : FileId := d.location.file

def severity (d : Diagnostic) : Severity := d.kind.severity

def isError (d : Diagnostic) : Bool := d.severity == .error

/-- `[line,column] code message`, counted from one. -/
def display (d : Diagnostic) : String :=
  s!"[{d.location.start.line + 1},{d.location.start.column + 1}] {d.kind.code} {d.message}"

end Diagnostic

/-! ### Several diagnostics -/

abbrev DiagnosticsByFile := FileTable (List Diagnostic)

namespace Diagnostics

def errorCount (ds : List Diagnostic) : Nat := ds.countP Diagnostic.isError

def warningCount (ds : List Diagnostic) : Nat := ds.countP fun d => !d.isError

/-- Only warnings can be suppressed. -/
def isSuppressed (kinds : List DiagnosticKind) (d : Diagnostic) : Bool :=
  d.severity == .warning && kinds.contains d.kind

/-- Adds a diagnostic to those of its file. -/
def addByFile (table : DiagnosticsByFile) (d : Diagnostic) : DiagnosticsByFile :=
  table.insert d.file ((table.get? d.file).getD [] ++ [d])

/-- The diagnostics of each file in order of discovery, without those suppressed. -/
def byFile (suppressed : List DiagnosticKind) (ds : List Diagnostic) : DiagnosticsByFile :=
  (ds.filter fun d => !isSuppressed suppressed d).foldl addByFile []

end Diagnostics

/-- All diagnostics of a table, file by file. -/
def DiagnosticsByFile.all (table : DiagnosticsByFile) : List Diagnostic := table.flatMap Prod.snd

end EntityModel
