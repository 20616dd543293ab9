import EntityModel.Diagnostics.Diagnostic
import EntityModel.Model.Basic

/-!
# Uses

A file names the files that it uses.  Only the first mention of a file counts.  Files must not use
each other in a circle: the search goes depth first along the uses, and a use that leads back into
the path in hand closes a cycle.
-/

namespace EntityModel.Linking

/-- Resolves the uses behind those with the names in `seen`. -/
def resolveUsesFrom (m : Model) : List String → List FileReference → List FileReference
  | _, [] => []
  | seen, use :: rest =>
    let resolved :=
      if seen.contains use.text then use
      else match m.fileNamed? use.text with
        | some f => use.resolve f.id
        | none => use
    resolved :: resolveUsesFrom m (use.text :: seen) rest

def resolveUses (m : Model) : Model :=
  m.mapFiles fun f => { f with uses := resolveUsesFrom m [] f.uses }

/-- Uses named again, and uses of files that there are not. -/
def useProblemsFrom : List String → List FileReference → List Diagnostic
  | _, [] => []
  | seen, use :: rest =>
    let problems :=
      if seen.contains use.text then
        [{ problem := .duplicateUse use.text, location := use.location }]
      else if use.target.isNone then
        [{ problem := .fileNotFound use.text, location := use.location }]
      else []
    problems ++ useProblemsFrom (use.text :: seen) rest

def useProblems (m : Model) : List Diagnostic :=
  m.files.flatMap fun f => useProblemsFrom [] f.uses

/-! ### Circles -/

/-- A use that closes a cycle; the chain starts and ends with the file used. -/
structure UseCycle where
  use : FileReference
  chain : List FileId
deriving Repr, DecidableEq

/-- What a search has left behind it: the files done with, and the cycles found. -/
structure Search where
  done : List FileId := []
  cycles : List UseCycle := []
deriving Repr, DecidableEq

/-- Follows one use from the end of the path, going on by `visit` where the search has not been. -/
def followUse (visit : Search → FileId → Search) (path : List FileId) (s : Search)
    (use : FileReference) :
    Search :=
  match use.target with
  | none => s
  | some target =>
    if path.contains target then
      { s with cycles := s.cycles ++ [⟨use, path.dropWhile (· != target) ++ [target]⟩] }
    else if s.done.contains target then s
    else visit s target

/-- Searches from a file at the end of `path`; the depth is bounded by the number of files. -/
def visitUses (m : Model) : Nat → List FileId → Search → FileId → Search
  | 0, _, s, _ => s
  | fuel + 1, path, s, id =>
    match m.file? id with
    | none => s
    | some f =>
      let path := path ++ [id]
      let s := f.uses.foldl (followUse (visitUses m fuel path) path) s
      { s with done := id :: s.done }

/-- The cycles of the whole model, in the order in which the search meets them. -/
def useCycles (m : Model) : List UseCycle :=
  let visit (s : Search) (f : ModelFile) : Search :=
    if s.done.contains f.id then s else visitUses m (m.files.length + 1) [] s f.id
  (m.files.foldl visit {}).cycles

/-- The names of the files with these ids. -/
def fileNames (m : Model) (ids : List FileId) : List String :=
  ids.filterMap fun id => (m.file? id).map (·.name)

def circularUses (m : Model) : List Diagnostic :=
  (useCycles m).map fun c =>
    { problem := .circularUses (fileNames m c.chain), location := c.use.location }

end EntityModel.Linking
