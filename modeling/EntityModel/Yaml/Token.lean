import EntityModel.Yaml.Cursor

/-!
# Tokens and events of a YAML text

The lexers of both versions of YAML hand the same tokens to the grammar.  A stream of tokens may
break off with a fault: the grammar then sees every token that was ready before it.
-/

namespace EntityModel.Yaml

inductive ScalarStyle
  | plain
  | singleQuoted
  | doubleQuoted
  | literal
  | folded
deriving Repr, DecidableEq

inductive TokenKind
  | streamStart
  | streamEnd
  | versionDirective (major minor : Nat)
  | tagDirective (handle start : String)
  | documentStart
  | documentEnd
  | blockSequenceStart
  | blockMappingStart
  | blockEnd
  | flowSequenceStart
  | flowSequenceEnd
  | flowMappingStart
  | flowMappingEnd
  | blockEntry
  | flowEntry
  | key
  | value
  | aliasTo (name : String)
  | anchor (name : String)
  | tag (handle suffix : String)
  | scalar (style : ScalarStyle) (text : String)
deriving Repr, DecidableEq

structure Token where
  kind : TokenKind
  start : Mark
  stop : Mark
deriving Repr, DecidableEq

/-- A token as it goes out to the grammar, and how far the text was read for it: other tokens may
wait behind it. -/
structure SentToken extends Token where
  readTo : Mark
deriving Repr, DecidableEq

/-- The tokens that were ready, and what stopped the lexer if it did not reach the end. -/
structure TokenStream (ε : Type) where
  tokens : List SentToken
  fault : Option ε

/-! ### What the lexers remember -/

/-- A place where a key may have started, known to be one only when its `:` is met. -/
structure PendingKey where
  possible : Bool := false
  required : Bool := false
  token : Nat := 0
  mark : Mark := {}
deriving Repr, Inhabited

/-- No longer a possible key. -/
def PendingKey.drop (k : PendingKey) : PendingKey := { k with possible := false }

/-- An indentation to return to; `closes` when leaving the current one ends a block. -/
structure Indent where
  column : Int
  closes : Bool
deriving Repr

/-! ### Events

The grammar turns tokens into a walk over the nodes of each document.  An event has the mark of the
place where its node starts.
-/

inductive Event
  | streamStart
  | streamEnd
  | documentStart
  | documentEnd
  | aliasTo (name : String)
  | scalar (text : String) (style : ScalarStyle) (anchor tag : Option String)
  | sequenceStart (anchor tag : Option String)
  | sequenceEnd
  | mappingStart (anchor tag : Option String)
  | mappingEnd
deriving Repr, DecidableEq

inductive GrammarFault
  | streamStart
  | documentStart
  | directiveAfterDocument
  | duplicateVersion
  | unsupportedVersion
  | duplicateHandle
  | undeclaredHandle
  | unknownAlias
  | nodeContent (block : Bool)
  | blockMappingKey
  | blockSequenceEntry
  | flowMappingEnd
  | flowSequenceEnd
deriving Repr, DecidableEq

/-- Why the events of a text break off: the lexer stopped, or the tokens fit no rule.  The construct
that the tokens fail to continue has its own mark. -/
inductive Failure (ε : Type)
  | lexical (fault : ε)
  | grammar (cause : GrammarFault) (mark : Mark) (context : Option Mark)
deriving Repr

/-- The events that came before the end or the failure. -/
structure EventStream (ε : Type) where
  events : List (Event × Mark)
  failure : Option (Failure ε)

end EntityModel.Yaml
