import EntityModel.Path.Basic

/-!
# Names of model files

A model file is named by its path below the model root, without extension.
-/

namespace EntityModel

/-- The extension of model files. -/
def modelExtension : List Char := ['t', 'm', 'd']

namespace Path

/-- A file name cut at its last dot; a dot at the very start cuts nothing. -/
def cutExtension (name : String) : Option (List Char × List Char) :=
  let reversed := name.toList.reverse
  let extension := reversed.takeWhile (· != '.')
  match reversed.dropWhile (· != '.') with
  | _ :: stem@(_ :: _) => some (stem.reverse, extension.reverse)
  | _ => none

/-- The name of the file without its extension, as the component that it is then read as.  Where
only a dot is left of the name, the dot before the extension stays as well. -/
def withoutExtension (cs : List Component) : List Component :=
  match cs.getLast? with
  | some (.name name) =>
    match cutExtension name with
    | none => cs
    | some (stem, _) =>
      let kept := if stem == ['.'] then ['.', '.'] else stem
      cs.dropLast ++ (component? kept).toList
  | _ => cs

def isModelFile (p : Path) : Bool :=
  match p.components.getLast? with
  | some (.name name) => ((cutExtension name).map Prod.snd) == some modelExtension
  | _ => false

/-- The name of a model file below a root; none for any other path. -/
def modelFileName? (root p : Path) : Option String := do
  if !p.isModelFile then none
  let below ← behind? root.components p.components
  return "/".intercalate ((withoutExtension below).map Component.text)

end Path

end EntityModel
