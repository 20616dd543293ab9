import EntityModel.Disk.Basic
import EntityModel.Settings.Basic
import EntityModel.Yaml.Record

/-!
# Reading settings

A settings file is a record whose fields may all be missing.  The model root is seen from the
directory of the file.
-/

namespace EntityModel

inductive SettingsError
  | unreadable (path : Path) (error : DiskError)
  | invalid (error : Yaml.RecordError)
deriving Repr

def SettingsError.message : SettingsError → String
  | unreadable path error => s!"cannot read config file {path.text}: {error.message}"
  | invalid error => "invalid config: " ++ error.message

namespace Settings

open Yaml

/-- A code of a diagnostic, with blanks around it. -/
def code (path : String) : Decode DiagnosticKind := do
  let text ← Decode.string "a string" path
  match DiagnosticKind.parse? text with
  | some kind => return kind
  | none => Decode.fail (.custom (DiagnosticKind.unknownCodeMessage text))

def withNaming (s : Settings) (change : NamingRules → NamingRules) : Settings :=
  { s with naming := change s.naming }

def fields : List (RecordField Settings) := [
  { name := "app"
    decode := fun path s => do return { s with app := ← Decode.string "a string" path } },
  { name := "modelRoot"
    decode := fun path s => do
      return { s with modelRoot := ⟨← Decode.string "path string" path⟩ } },
  { name := "lockFileName"
    decode := fun path s => do return { s with lockFileName := ← Decode.string "a string" path } },
  { name := "noWarn"
    decode := fun path s => do return { s with suppressed := ← Decode.list code path } },
  { name := "pluralizeTableNames"
    decode := fun path s => do
      let b ← Decode.bool path
      return s.withNaming fun n => { n with pluralizeTableNames := b } },
  { name := "useLegacyRoleNames"
    decode := fun path s => do
      let b ← Decode.bool path
      return s.withNaming fun n => { n with useLegacyRoleNames := b } },
  { name := "allowCompositePrimaryKey"
    decode := fun path s => do
      let b ← Decode.bool path
      return s.withNaming fun n => { n with allowCompositePrimaryKey := b } },
  { name := "ignoredFiles"
    decode := fun path s => do
      return { s with ignoredFiles := ← Decode.list (Decode.string "a string") path } }]

def parse (text : String) : Except SettingsError Settings :=
  match decodeText (Decode.record "ModelConfig" fields [] {}) text with
  | .ok s => .ok s
  | .error e => .error (.invalid e)

/-- Settings as seen from the file that they were read from. -/
def relativeTo (s : Settings) (path : Path) : Settings :=
  if s.modelRoot.isAbsolute then s
  else { s with modelRoot := (path.parent?.getD ⟨"."⟩).join s.modelRoot }

def load (d : Disk) (path : Path) : Except SettingsError Settings := do
  match d.read path with
  | .error e => .error (.unreadable path e)
  | .ok text => return (← parse text).relativeTo path

end Settings

end EntityModel
