/-!
# Namespaces

Every class, decorator and endpoint lives in the module of its file, a path of names with dots,
below the application.
-/

namespace EntityModel

structure Namespace where
  app : String
  modulePath : String
deriving Repr, DecidableEq, Inhabited

/-- The parts of a text between the places where `c` stands. -/
def splitAt (c : Char) : List Char → List (List Char)
  | [] => [[]]
  | x :: rest =>
    if x == c then [] :: splitAt c rest
    else match splitAt c rest with
      | [] => [[x]]
      | part :: parts => (x :: part) :: parts

namespace Namespace

/-- The first name of the module path. -/
def rootModule (n : Namespace) : String :=
  String.ofList ((splitAt '.' n.modulePath.toList).headD [])

def segments (n : Namespace) : List String :=
  ((splitAt '.' n.modulePath.toList).filter fun part => !part.isEmpty).map String.ofList

/-- `Module.Name`, or the name alone outside any module. -/
def qualify (n : Namespace) (name : String) : String :=
  if n.modulePath.isEmpty then name else n.modulePath ++ "." ++ name

def display (n : Namespace) : String :=
  if n.app.isEmpty then n.modulePath
  else if n.modulePath.isEmpty then n.app
  else n.app ++ "." ++ n.modulePath

end Namespace

end EntityModel
