import EntityModel.Diagnostics.Kind
import EntityModel.Model.File
import EntityModel.Path.Basic

/-!
# Settings

What loading, linking and generation of a model depend on besides its files.
-/

namespace EntityModel

structure Settings where
  /-- The application, the first part of every namespace. -/
  app : String := ""
  /-- The directory that holds the model files. -/
  modelRoot : Path := ⟨"."⟩
  lockFileName : String := "topmodel.lock"
  /-- The warnings that nobody wants to see. -/
  suppressed : List DiagnosticKind := []
  naming : NamingRules := {}
  /-- Names of model files that are left out. -/
  ignoredFiles : List String := []
deriving Repr, DecidableEq

namespace Settings

def isIgnored (s : Settings) (name : String) : Bool := s.ignoredFiles.contains name

def lockPath (s : Settings) : Path := s.modelRoot.join ⟨s.lockFileName⟩

def suppresses (s : Settings) (kind : DiagnosticKind) : Bool := s.suppressed.contains kind

end Settings

end EntityModel
