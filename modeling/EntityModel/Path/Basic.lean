import EntityModel.Model.Namespace

/-!
# Paths

A path is a text; what it means lies in its components.  Two paths with the same components are the
same path, and paths are ordered by components, whatever their texts.
-/

namespace EntityModel

/-- The order of the constructors is the order of components. -/
inductive Component
  | root
  | current
  | parent
  | name (text : String)
deriving Repr, DecidableEq, Ord

def Component.text : Component → String
  | root => "/"
  | current => "."
  | parent => ".."
  | name text => text

def Component.holdsNul : Component → Bool
  | name text => text.toList.contains '\x00'
  | _ => false

structure Path where
  text : String
deriving Repr, DecidableEq, Inhabited

namespace Path

/-- What a part between slashes is; empty parts and single dots are nothing. -/
def component? (part : List Char) : Option Component :=
  if part.isEmpty || part == ['.'] then none
  else if part == ['.', '.'] then some .parent
  else some (.name (String.ofList part))

/-- The slash or the dot that a path starts with. -/
def start : List (List Char) → List Component
  | [] :: _ :: _ => [.root]
  | ['.'] :: _ => [.current]
  | _ => []

def components (p : Path) : List Component :=
  let parts := splitAt '/' p.text.toList
  start parts ++ parts.filterMap component?

def isAbsolute (p : Path) : Bool := p.text.toList.head? == some '/'

/-- The same path, if perhaps in another text. -/
def same (p q : Path) : Bool := p.components == q.components

/-- A path below another; an absolute path stays as it is. -/
def join (base p : Path) : Path :=
  if p.isAbsolute || base.text.isEmpty then p
  else if base.text.toList.getLast? == some '/' then ⟨base.text ++ p.text⟩
  else ⟨base.text ++ "/" ++ p.text⟩

/-- The last parts of a path that are nothing. -/
def dropIdle (reversed : List (List Char)) : List (List Char) :=
  reversed.dropWhile fun part => part.isEmpty || part == ['.']

/-- Parts, last first, as a text. -/
def joinParts (reversed : List (List Char)) : String :=
  "/".intercalate (reversed.reverse.map String.ofList)

/-- The path without its last component, as it was written up to there. -/
def parent? (p : Path) : Option Path :=
  let above (parts : List (List Char)) : Option (List (List Char)) :=
    match dropIdle parts.reverse with
    | [] => none
    | _ :: rest => some (dropIdle rest)
  match splitAt '/' p.text.toList with
  | [] :: body@(_ :: _) => (above body).map fun rest => ⟨"/" ++ joinParts rest⟩
  | ['.'] :: body =>
    match above body with
    | some rest => some ⟨joinParts (rest ++ [['.']])⟩
    | none => some ⟨""⟩
  | parts => (above parts).map fun rest => ⟨joinParts rest⟩

/-- Says that it is a directory: it ends in a slash or a dot. -/
def namesDirectory (p : Path) : Bool :=
  match (splitAt '/' p.text.toList).getLast? with
  | some part => part.isEmpty || part == ['.']
  | none => false

/-- The last thing that it says is a dot, which stands for the directory before it. -/
def endsInDot (p : Path) : Bool :=
  ((splitAt '/' p.text.toList).filter fun part => !part.isEmpty).getLast? == some ['.']

end Path

/-! ### Sets of paths -/

/-- Different paths in their order, each in the text that it came in first. -/
abbrev PathSet := List Path

namespace PathSet

def insert (p : Path) : PathSet → PathSet
  | [] => [p]
  | q :: rest =>
    match compare p.components q.components with
    | .lt => p :: q :: rest
    | .eq => q :: rest
    | .gt => q :: insert p rest

def insertAll (s : PathSet) (ps : List Path) : PathSet := ps.foldl (fun s p => insert p s) s

end PathSet

end EntityModel

namespace EntityModel.Path

/-! ### Paths relative to a root

Lock files name outputs relative to the model root, with `..` where they leave it.  Only the names
in the paths are looked at, never a disk.
-/

/-- Puts one more component behind a normal form. -/
def pushNormal (done : List Component) (c : Component) : List Component :=
  match c with
  | .current => done
  | .parent =>
    match done.getLast? with
    | some (.name _) => done.dropLast
    | some .root => done
    | _ => done ++ [.parent]
  | c => done ++ [c]

/-- Without `.`, and with `..` only where nothing is left to go up from. -/
def normalize (p : Path) : List Component := p.components.foldl pushNormal []

def isRoot (c : Component) : Bool := c == .root

/-- Components as a text. -/
def render : List Component → String
  | .root :: rest => "/" ++ "/".intercalate (rest.map Component.text)
  | cs => "/".intercalate (cs.map Component.text)

/-- How many components two paths start with in common. -/
def commonLength : List Component → List Component → Nat
  | a :: as, b :: bs => if a == b then commonLength as bs + 1 else 0
  | _, _ => 0

/-- A path as seen from a root; one that has nothing to do with the root stays as it is. -/
def relativeName (root path : Path) : String :=
  let base := root.normalize
  let target := path.normalize
  let common := commonLength base target
  let unrelated :=
    base.head?.map isRoot != target.head?.map isRoot
      || (common == 0 && target.head?.any isRoot)
      || (base.drop common).contains .parent
  if unrelated then render target
  else render (List.replicate (base.length - common) .parent ++ target.drop common)

/-- The path that an entry stands for, if it is the entry that this path would get. -/
def resolveEntry (root : Path) (entry : String) : Option Path :=
  let path := root.join ⟨entry⟩
  if entry.isEmpty || relativeName root path != entry then none else some path

/-- What is left of a path behind a root that it starts with. -/
def behind? : List Component → List Component → Option (List Component)
  | [], rest => some rest
  | a :: as, b :: bs => if a == b then behind? as bs else none
  | _ :: _, [] => none

end EntityModel.Path
