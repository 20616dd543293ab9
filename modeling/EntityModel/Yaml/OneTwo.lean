import EntityModel.Yaml.Grammar
import EntityModel.Yaml.OneTwo.Tokens

/-!
# YAML 1.2

The events of a text in YAML 1.2, and the wording of what can be wrong with it.  Model files are
written in this version.
-/

namespace EntityModel.Yaml.OneTwo

/-- A handle stands for its declared start.  Undeclared, `!!` is the standard one, a local handle
stands for itself, and a named handle has no meaning. -/
def resolveTag (handles : List (String × String)) (handle suffix : String) : Option String :=
  match handles.lookup (if handle.isEmpty && suffix == "!" then "" else handle) with
  | some start => some (start ++ suffix)
  | none =>
    if handle == "!!" then some ("tag:yaml.org,2002:" ++ suffix)
    else if handle.length ≥ 2 && handle.endsWith "!" then none
    else some (handle ++ suffix)

/-- An empty node stands at the token behind it, in a flow mapping at its `:`. -/
def rules : Rules where
  bareValue := true
  resumesAfterEnd := true
  skipsLeadingEnd := true
  directiveNeedsEnd := true
  checksAliases := true
  startsAtProperties := false
  resolvesTagFirst := true
  checksVersion := false
  gathersHandles := false
  emptyText := "~"
  endsPairUnseen := true
  emptyAt _ next := next.start
  emptyInFlowAt value _ := value.start
  resolveTag := resolveTag

def events (text : List Char) : EventStream Fault :=
  .ofTokens rules (tokens text)

def grammarMessage : GrammarFault → String
  | .streamStart => "did not find expected <stream-start>"
  | .documentStart => "did not find expected <document start>"
  | .directiveAfterDocument => "missing explicit document end marker before directive"
  | .duplicateVersion => "duplicate version directive"
  | .unsupportedVersion => "found incompatible YAML document"
  | .duplicateHandle =>
    "the TAG directive must only be given at most once per handle in the same document"
  | .undeclaredHandle => "the handle wasn't declared"
  | .unknownAlias => "while parsing node, found unknown anchor"
  | .nodeContent _ => "while parsing a node, did not find expected node content"
  | .blockMappingKey => "while parsing a block mapping, did not find expected key"
  | .blockSequenceEntry => "while parsing a block collection, did not find expected '-' indicator"
  | .flowMappingEnd => "while parsing a flow mapping, did not find expected ',' or '\x7d'"
  | .flowSequenceEnd => "while parsing a flow sequence, expected ',' or ']'"

/-- Where a failure is reported. -/
def failureMark : Failure Fault → Mark
  | .lexical f => f.mark
  | .grammar _ mark _ => mark

def failureCause : Failure Fault → String
  | .lexical f => f.cause.message
  | .grammar cause _ _ => grammarMessage cause

/-- The cause and the place of a failure; lines and columns count from one. -/
def failureMessage (f : Failure Fault) : String :=
  let m := failureMark f
  s!"{failureCause f} at byte {m.index} line {m.line + 1} column {m.column + 1}"

end EntityModel.Yaml.OneTwo
