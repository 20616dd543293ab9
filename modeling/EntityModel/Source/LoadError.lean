import EntityModel.Source.Document
import EntityModel.Source.Event

/-!
# Why a model file does not load

Loading stops at the first error.  An error is a cause, the file and, but for unreadable files, the
place; the label gives both to a reader, who counts lines and columns from one.
-/

namespace EntityModel.Source

/-- The blocks of the model language, each with its own keys. -/
inductive Block
  | header
  | options
  | endpointOptions
  | domain
  | domainImplementation
  | decorator
  | decoratorImplementation
  | cls
  | decoratorUsage
  | endpoint
  | fileAlias
  | regular
  | association
  | composition
  | aliasTarget
  | propertyAlias
deriving Repr, DecidableEq

def Block.display : Block → String
  | header => "l'en-tête du fichier"
  | options => "les options du fichier"
  | endpointOptions => "les options d'endpoints"
  | domain => "un domaine"
  | domainImplementation => "une implémentation de domaine"
  | decorator => "un décorateur"
  | decoratorImplementation => "une implémentation de décorateur"
  | cls => "une classe"
  | decoratorUsage => "un décorateur de classe"
  | endpoint => "un endpoint"
  | fileAlias => "un alias"
  | regular => "une propriété"
  | association => "une association"
  | composition => "une composition"
  | aliasTarget => "la cible d'un alias"
  | propertyAlias => "un alias de propriété"

/-- What a block must have. -/
inductive Requirement
  | module
  | domainName
  | decoratorName
  | className
  | endpointName
  | endpointMethod
  | aliasFile
  | usedDecorator
  | propertyName
  | propertyDomain (name : String)
  | compositionName
  | aliasClass
deriving Repr, DecidableEq

def Requirement.message : Requirement → String
  | module => "Le fichier doit définir un module."
  | domainName => "Le domaine doit avoir un nom."
  | decoratorName => "Le décorateur doit avoir un nom."
  | className => "La classe doit avoir un nom."
  | endpointName => "L'endpoint doit avoir un nom."
  | endpointMethod => "L'endpoint doit définir une méthode HTTP."
  | aliasFile => "L'alias doit définir un fichier."
  | usedDecorator => "Le nom du décorateur est requis."
  | propertyName => "La propriété doit avoir un nom."
  | propertyDomain name => s!"La propriété '{name}' doit avoir un domaine."
  | compositionName => "La composition doit avoir un nom."
  | aliasClass => "L'alias doit définir une classe."

inductive LoadCause
  | invalidStream (failure : Yaml.Failure Yaml.OneTwo.Fault)
  | invalidDocument (fault : DocumentFault)
  /-- A document is said to start behind the last line.  There the run breaks off as a whole and
  shows no message; the cause stands for that, so that it is told apart from a file that loads. -/
  | lineMissing (line : Nat)
  | endOfEvents
  | expected (kind found : EventKind)
  | valueExpected (found : EventKind)
  | notBoolean (text : String)
  | notNumber (text : String)
  | unknownKey (block : Block) (key : String)
  | missing (requirement : Requirement)
  | unknownDocument (kind : String)
  | severalEntities
  | unknownMethod (text : String)
  | unknownCardinality (text : String)
  | valuesBeforeProperties
  | valueWithoutField (value cls field : String)
  | aliasSelection
  | rootNotFound
  | unreadable (reason : String)
  | other (message : String)
deriving Repr

def LoadCause.message : LoadCause → String
  | invalidStream failure => "Document YAML invalide : " ++ Yaml.OneTwo.failureMessage failure
  | invalidDocument fault => "Document YAML invalide : " ++ fault.message
  -- stands where the run breaks off; a reader never gets to see it
  | lineMissing line => s!"Le fichier n'a pas de ligne {line + 1}."
  | endOfEvents => "Fin de fichier inattendue."
  | expected kind found => s!"Attendu : {kind.display}, trouvé : {found.found}."
  | valueExpected found => s!"Attendu : une valeur, trouvé : {found.found}."
  | notBoolean text => s!"La valeur '{text}' n'est pas un booléen."
  | notNumber text => s!"La valeur '{text}' n'est pas un entier positif."
  | unknownKey block key => s!"Propriété '{key}' inconnue pour {block.display}."
  | missing requirement => requirement.message
  | unknownDocument kind => s!"Type de document inconnu : '{kind}'."
  | severalEntities => "Un document ne peut déclarer qu'une seule entité."
  | unknownMethod text => s!"Méthode HTTP inconnue : '{text}'."
  | unknownCardinality text => s!"Type d'association inconnu : '{text}'."
  | valuesBeforeProperties =>
    "Les valeurs d'une classe doivent être déclarées après ses propriétés."
  | valueWithoutField value cls field =>
    s!"La valeur '{value}' de la classe '{cls}' doit initialiser la propriété obligatoire '{field}'."
  | aliasSelection => "Un alias ne peut pas combiner 'property' avec 'include' ou 'exclude'."
  | rootNotFound => "Le répertoire du modèle est introuvable."
  | unreadable reason => "Impossible de lire le fichier : " ++ reason
  | other message => message

structure LoadError where
  cause : LoadCause
  file : String
  location : Option Location
deriving Repr

namespace LoadError

def message (e : LoadError) : String := e.cause.message

/-- `Folder/File[line,column]`, or the file alone. -/
def label (e : LoadError) : String :=
  match e.location with
  | some l => s!"{e.file}[{l.start.line + 1},{l.start.column + 1}]"
  | none => e.file

def display (e : LoadError) : String :=
  s!"{e.label} - {e.message}"

end LoadError

end EntityModel.Source
