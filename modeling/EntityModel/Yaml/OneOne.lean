import EntityModel.Yaml.Grammar
import EntityModel.Yaml.OneOne.Tokens

/-!
# YAML 1.1

The events of a text in YAML 1.1, and the wording of what can be wrong with it.  Settings and lock
files are written in this version.
-/

namespace EntityModel.Yaml.OneOne

/-- A handle stands for its declared start, `!` for itself and `!!` for the standard one. -/
def resolveTag (handles : List (String × String)) (handle suffix : String) : Option String :=
  if handle.isEmpty then some suffix
  else match handles.lookup handle with
    | some start => some (start ++ suffix)
    | none =>
      if handle == "!" then some ("!" ++ suffix)
      else if handle == "!!" then some ("tag:yaml.org,2002:" ++ suffix)
      else none

/-- An empty node stands behind the indicator that it belongs to. -/
def rules : Rules where
  bareValue := false
  resumesAfterEnd := false
  skipsLeadingEnd := false
  directiveNeedsEnd := false
  checksAliases := false
  startsAtProperties := true
  resolvesTagFirst := false
  checksVersion := true
  gathersHandles := true
  emptyText := ""
  endsPairUnseen := false
  emptyAt indicator _ := indicator.stop
  emptyInFlowAt _ next := next.start
  resolveTag := resolveTag

def events (text : List Char) : EventStream Fault :=
  .ofTokens rules (tokens text)

/-- The problem that the grammar meets, and what it was reading. -/
def grammarMessage : GrammarFault → String × Option String
  | .streamStart => ("did not find expected <stream-start>", none)
  | .documentStart => ("did not find expected <document start>", none)
  | .directiveAfterDocument => ("did not find expected <document start>", none)
  | .duplicateVersion => ("found duplicate %YAML directive", none)
  | .unsupportedVersion => ("found incompatible YAML document", none)
  | .duplicateHandle => ("found duplicate %TAG directive", none)
  | .undeclaredHandle => ("found undefined tag handle", some "while parsing a node")
  | .unknownAlias => ("unknown anchor", none)
  | .nodeContent true => ("did not find expected node content", some "while parsing a block node")
  | .nodeContent false => ("did not find expected node content", some "while parsing a flow node")
  | .blockMappingKey => ("did not find expected key", some "while parsing a block mapping")
  | .blockSequenceEntry =>
    ("did not find expected '-' indicator", some "while parsing a block collection")
  | .flowMappingEnd => ("did not find expected ',' or '\x7d'", some "while parsing a flow mapping")
  | .flowSequenceEnd => ("did not find expected ',' or ']'", some "while parsing a flow sequence")

def isOrigin (m : Mark) : Bool := m.line == 0 && m.column == 0

/-- A place as readers count it; the very start goes without saying. -/
def markMessage (m : Mark) : String :=
  if isOrigin m then "" else s!" at line {m.line + 1} column {m.column + 1}"

/-- A problem and its place, then the context and its own place if that is another. -/
def placedMessage (problem : String) (mark : Mark) (context : Option (String × Mark)) : String :=
  problem ++ markMessage mark ++
    match context with
    | none => ""
    | some (text, start) =>
      let same := start.line == mark.line && start.column == mark.column
      ", " ++ text ++ if same then "" else markMessage start

def failureMessage : Failure Fault → String
  | .lexical ⟨.controlCharacter offset, _, _⟩ =>
    Problem.message (.controlCharacter offset) ++ if offset == 0 then ""
      else s!" at position {offset}"
  | .lexical ⟨problem, mark, context⟩ =>
    placedMessage problem.message mark (context.map fun (c, start) => (c.message, start))
  | .grammar cause mark context =>
    let (problem, reading) := grammarMessage cause
    placedMessage problem mark (reading.bind fun text => context.map fun start => (text, start))

end EntityModel.Yaml.OneOne
