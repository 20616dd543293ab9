import EntityModel.Text.Case
import EntityModel.Text.Identifier

/-!
# Words of a name

Model names are written in PascalCase and domain names in CONSTANT_CASE.  Both split into words,
from which a name can be written in any style.  A word ends at a separator, before a capital that
follows a small letter or a digit, and before the last capital of an acronym when a small letter
follows it: `HTTPServer` is `HTTP`, `Server`.
-/

namespace EntityModel.Text

/-- `_` and every character that no identifier holds. -/
def isSeparator (c : Char) : Bool :=
  c == '_' || !continuesIdentifier c

/-- A new word starts at `c` when it follows `prev` directly. -/
def startsWord (prev c : Char) (next : Option Char) : Bool :=
  isUppercase c &&
    (isLowercase prev || prev.isDigit || (isUppercase prev && next.any isLowercase))

/-- The words of `cs` after a word whose letters so far are `word`, last letter first. -/
def wordsFrom : List Char → List Char → List (List Char)
  | word, [] => if word.isEmpty then [] else [word.reverse]
  | word, c :: rest =>
    if isSeparator c then
      if word.isEmpty then wordsFrom [] rest else word.reverse :: wordsFrom [] rest
    else
      match word with
      | [] => wordsFrom [c] rest
      | prev :: _ =>
        if startsWord prev c rest.head? then word.reverse :: wordsFrom [c] rest
        else wordsFrom (c :: word) rest

/-- The words of a name, in order. -/
def words (s : String) : List String :=
  (wordsFrom [] s.toList).map String.ofList

/-! ### Styles -/

/-- `UtilisateurProfil` becomes `UTILISATEUR_PROFIL`. -/
def constantCase (s : String) : String :=
  "_".intercalate ((words s).map upper)

/-- `UtilisateurProfil` becomes `utilisateur_profil`. -/
def snakeCase (s : String) : String :=
  "_".intercalate ((words s).map lower)

/-- `DO_CODE_LIST` becomes `DoCodeList`. -/
def pascalCase (s : String) : String :=
  String.join ((words s).map fun w => upperFirst (lower w))

/-- `UtilisateurProfil` becomes `utilisateurProfil`. -/
def camelCase (s : String) : String :=
  lowerFirst (pascalCase s)

/-! ### Plural -/

/-- A sibilant ending takes `es`. -/
def endsInSibilant (s : String) : Bool :=
  ["s", "x", "z", "ch", "sh"].any (·.toList.isSuffixOf (lower s).toList)

/-- The stem of a word in `y` after a consonant. -/
def stemBeforeY? (s : String) : Option String :=
  match s.toList.reverse with
  | 'y' :: c :: rest => if c ∈ "aeiouAEIOU".toList then none
    else some (String.ofList (c :: rest).reverse)
  | _ => none

/-- English plural of the last word of a name. -/
def pluralize (s : String) : String :=
  if s.isEmpty then ""
  else if endsInSibilant s then s ++ "es"
  else match stemBeforeY? s with
    | some stem => stem ++ "ies"
    | none => s ++ "s"

end EntityModel.Text
