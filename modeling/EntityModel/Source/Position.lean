/-!
# Positions in model files

Lines and columns count from zero and columns count characters.  A span is closed on both sides, so
that the character just after a value still belongs to it.
-/

namespace EntityModel

/-- A file of a store.  Ids are dealt out in order of first mention and never reused. -/
structure FileId where
  index : Nat
deriving Repr, DecidableEq, Ord, Inhabited

instance : LT FileId := ⟨fun a b => a.index < b.index⟩

instance (a b : FileId) : Decidable (a < b) := inferInstanceAs (Decidable (a.index < b.index))

instance : ToString FileId := ⟨fun f => "#" ++ toString f.index⟩

structure Position where
  line : Nat
  column : Nat
deriving Repr, DecidableEq, Inhabited

/-- Text order: by line, then by column. -/
def Position.before (p q : Position) : Bool :=
  p.line < q.line || (p.line == q.line && p.column < q.column)

structure Span where
  start : Position
  stop : Position
deriving Repr, DecidableEq, Inhabited

namespace Span

/-- The empty span at a position. -/
def point (p : Position) : Span := ⟨p, p⟩

/-- Neither before the start nor after the end. -/
def contains (s : Span) (p : Position) : Bool :=
  !p.before s.start && !s.stop.before p

end Span

/-- A span of one file. -/
structure Location where
  file : FileId
  span : Span
deriving Repr, DecidableEq, Inhabited

namespace Location

/-- The empty span at a line and column. -/
def point (file : FileId) (line column : Nat) : Location :=
  ⟨file, .point ⟨line, column⟩⟩

def start (l : Location) : Position := l.span.start

def stop (l : Location) : Position := l.span.stop

/-- A position lies in a location only if the file is the same. -/
def contains (l : Location) (file : FileId) (p : Position) : Bool :=
  l.file == file && l.span.contains p

end Location

/-- A value read from a file, with the place it was read from. -/
structure Located (α : Type) where
  value : α
  location : Location
deriving Repr, DecidableEq

end EntityModel
