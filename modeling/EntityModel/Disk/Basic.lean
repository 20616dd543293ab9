import EntityModel.Path.Basic

/-!
# Disks

A disk is a value: the places of its directories and files, and what the files hold.  Every
operation gives a new disk or says why it cannot be done, and then changes nothing.
-/

namespace EntityModel

inductive DiskError
  | noEntry
  | entryExists
  | notDirectory
  | isDirectory
  | nameTooLong
  | nulInName
  /-- The file holds no text. -/
  | notText
deriving Repr, DecidableEq

def DiskError.message : DiskError → String
  | noEntry => "No such file or directory (os error 2)"
  | entryExists => "File exists (os error 17)"
  | notDirectory => "Not a directory (os error 20)"
  | isDirectory => "Is a directory (os error 21)"
  | nameTooLong => "File name too long (os error 36)"
  | nulInName => "file name contained an unexpected NUL byte"
  | notText => "stream did not contain valid UTF-8"

/-- The names from the root down. -/
abbrev Place := List String

inductive Content
  | text (s : String)
  /-- Bytes that are no text. -/
  | bytes (b : List UInt8)
deriving Repr, DecidableEq

inductive DiskNode
  | directory
  | file (content : Content)
deriving Repr, DecidableEq

/-- What there is below the root, in no particular order; each place once. -/
structure Disk where
  nodes : List (Place × DiskNode) := []
deriving Repr, DecidableEq, Inhabited

namespace Disk

def node? (d : Disk) (place : Place) : Option DiskNode :=
  if place.isEmpty then some .directory else d.nodes.lookup place

def put (d : Disk) (place : Place) (node : DiskNode) : Disk :=
  ⟨d.nodes.filter (·.1 != place) ++ [(place, node)]⟩

def remove (d : Disk) (place : Place) : Disk := ⟨d.nodes.filter (·.1 != place)⟩

/-! ### Finding places -/

/-- One can go on from a place only if it is a directory. -/
def requireDirectory (d : Disk) (place : Place) : Except DiskError Unit :=
  match d.node? place with
  | none => .error .noEntry
  | some (.file _) => .error .notDirectory
  | some .directory => .ok ()

/-- The bytes that a name may have. -/
def nameLimit : Nat := 255

/-- Goes down the components; there need be nothing at the end. -/
def locateFrom (d : Disk) : Place → List Component → Except DiskError Place
  | place, [] => .ok place
  | _, .root :: rest => locateFrom d [] rest
  | place, .current :: rest => locateFrom d place rest
  | place, .parent :: rest => do
    d.requireDirectory place
    locateFrom d place.dropLast rest
  | place, .name name :: rest => do
    d.requireDirectory place
    if name.utf8ByteSize > nameLimit then .error .nameTooLong
    locateFrom d (place ++ [name]) rest

/-- The place that components lead to from the root. -/
def locateAll (d : Disk) (cs : List Component) : Except DiskError Place :=
  if cs.any Component.holdsNul then .error .nulInName else d.locateFrom [] cs

/-- The place that a path leads to. -/
def locate (d : Disk) (p : Path) : Except DiskError Place := d.locateAll p.components

/-- What there is where a path leads to. -/
def lookup (d : Disk) (p : Path) : Except DiskError DiskNode := do
  match d.node? (← d.locate p) with
  | none => .error .noEntry
  | some (.file content) => if p.namesDirectory then .error .notDirectory else .ok (.file content)
  | some .directory => .ok .directory

def isDirectory (d : Disk) (p : Path) : Bool :=
  match d.lookup p with
  | .ok .directory => true
  | _ => false

/-! ### Files -/

/-- The text of a file. -/
def read (d : Disk) (p : Path) : Except DiskError String := do
  match ← d.lookup p with
  | .directory => .error .isDirectory
  | .file (.bytes _) => .error .notText
  | .file (.text s) => .ok s

/-- Writes a file, new or in place of one, into a directory that there is.  No file is written where
the path says that there is a directory. -/
def write (d : Disk) (p : Path) (content : Content) : Except DiskError Disk := do
  let place ← d.locate p
  d.requireDirectory (if p.endsInDot then place else place.dropLast)
  if p.namesDirectory then .error .isDirectory
  else match d.node? place with
    | some .directory => .error .isDirectory
    | _ => .ok (d.put place (.file content))

def delete (d : Disk) (p : Path) : Except DiskError Disk := do
  match ← d.lookup p with
  | .directory => .error .isDirectory
  | .file _ => return d.remove (← d.locate p)

/-! ### Directories -/

def createDirectory (d : Disk) (cs : List Component) : Except DiskError Disk := do
  let place ← d.locateAll cs
  d.requireDirectory place.dropLast
  match d.node? place with
  | some _ => .error .entryExists
  | none => .ok (d.put place .directory)

def isDirectoryAt (d : Disk) (cs : List Component) : Bool :=
  match d.locateAll cs with
  | .ok place => d.node? place == some .directory
  | .error _ => false

/-- A directory that may be there already. -/
def ensureDirectory (d : Disk) (cs : List Component) : Except DiskError Disk :=
  match d.createDirectory cs with
  | .ok d => .ok d
  | .error e => if d.isDirectoryAt cs then .ok d else .error e

/-- A directory with all that are missing above it; the components come last first. -/
def createAllReversed (d : Disk) : List Component → Disk × Except DiskError Unit
  | [] => (d, .ok ())
  | c :: above =>
    let cs := (c :: above).reverse
    match d.ensureDirectory cs with
    | .ok d => (d, .ok ())
    | .error .noEntry =>
      match createAllReversed d above with
      | (d, .error e) => (d, .error e)
      | (d, .ok ()) =>
        match d.ensureDirectory cs with
        | .ok d => (d, .ok ())
        | .error e => (d, .error e)
    | .error e => (d, .error e)

/-- A directory with all that are missing above it.  What could be made stays, even on an error. -/
def createAll (d : Disk) (p : Path) : Disk × Except DiskError Unit :=
  d.createAllReversed p.components.reverse

/-! ### Walking -/

/-- The order in which a directory is walked: by names, and what is in a directory right behind
it. -/
def walkOrder (p q : Place) : Bool := (compare p q).isLE

/-- The files below a place, as the names that lead there from it, in the order of a walk. -/
def filesBelow (d : Disk) (place : Place) : List Place :=
  let below := d.nodes.filterMap fun (at', node) =>
    match node with
    | .file _ => if place.isPrefixOf at' && at' != place then some (at'.drop place.length) else none
    | .directory => none
  below.mergeSort walkOrder

end Disk

end EntityModel
