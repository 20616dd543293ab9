import EntityModel.Source.Position

/-!
# Files by their ids

A registry deals out ids in order of first mention.  A name keeps its id for good, also after its
file has left the store, so that ids held elsewhere stay meaningful.  A table holds at most one
value for each file, in the order of the file ids.
-/

namespace EntityModel

/-- The names seen so far, each at the index of its id. -/
structure FileRegistry where
  names : List String := []
deriving Repr, DecidableEq, Inhabited

namespace FileRegistry

def get? (r : FileRegistry) (name : String) : Option FileId :=
  (r.names.idxOf? name).map FileId.mk

def name? (r : FileRegistry) (id : FileId) : Option String :=
  r.names[id.index]?

/-- The id of a name, dealt out if the name is new. -/
def intern (r : FileRegistry) (name : String) : FileRegistry × FileId :=
  match r.get? name with
  | some id => (r, id)
  | none => (⟨r.names ++ [name]⟩, ⟨r.names.length⟩)

end FileRegistry

abbrev FileTable (α : Type) := List (FileId × α)

namespace FileTable

variable {α : Type}

def get? (t : FileTable α) (id : FileId) : Option α := List.lookup id t

def contains (t : FileTable α) (id : FileId) : Bool := (t.get? id).isSome

/-- Replaces the value of a file, or puts it at its place. -/
def insert (id : FileId) (value : α) : FileTable α → FileTable α
  | [] => [(id, value)]
  | (other, v) :: rest =>
    if id < other then (id, value) :: (other, v) :: rest
    else if id = other then (id, value) :: rest
    else (other, v) :: insert id value rest

def erase (t : FileTable α) (id : FileId) : FileTable α := t.filter (·.1 != id)

def keys (t : FileTable α) : List FileId := t.map Prod.fst

def values (t : FileTable α) : List α := t.map Prod.snd

end FileTable

/-- Ids in ascending order. -/
def FileId.sort (ids : List FileId) : List FileId := ids.mergeSort fun a b => a.index ≤ b.index

end EntityModel
