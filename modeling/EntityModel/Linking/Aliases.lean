import EntityModel.Linking.PropertyReferences

/-!
# Property aliases

An alias with a property name is resolved to that property; one without stands for a choice of
properties and is replaced by one alias for each.  Names may hang on other aliases, so both run in
rounds: each round handles the aliases whose class has no choice left and whose candidates have
names.  When a round can do nothing, what is left is taken for a cycle.
-/

namespace EntityModel.Linking

/-- What becomes of an alias in a round. -/
inductive Outcome
  | resolve (target : PropertyId)
  | expand (chosen : List PropertyKind)
  | blocked
  | failed
deriving Repr, DecidableEq

/-- An outcome with what was found wrong on the way. -/
structure Step where
  outcome : Outcome
  problems : List Diagnostic := []
deriving Repr

/-- The property that a resolved alias points to. -/
def aliasTarget (m : Model) (id : PropertyId) : Option PropertyId := do
  (← (← (← m.property? id).alias?).property).target

/-- The chain of aliases behind `at` comes to `source`, or to something that it has passed. -/
def chainReturns (m : Model) (source : PropertyId) :
    Nat → List PropertyId → Option PropertyId → Bool
  | _, _, none => false
  | 0, _, some _ => true
  | fuel + 1, seen, some id =>
    id == source || seen.contains id || chainReturns m source fuel (id :: seen) (aliasTarget m id)

/-- An alias at `source` that points to `target` closes a chain of aliases. -/
def closesCycle (m : Model) (source target : PropertyId) : Bool :=
  chainReturns m source (m.properties.length + 1) [] (some target)

/-- The properties of a class with the names that are known. -/
def namedCandidates (m : Model) (rules : NamingRules) (cls : ClassId) :
    List (PropertyId × Option String) :=
  (m.classProperties cls).map fun p => (p.id, m.propertyName? rules p.id)

def findCandidate (candidates : List (PropertyId × Option String)) (name : String) :
    Option PropertyId :=
  (candidates.find? fun (_, n) => n == some name).map Prod.fst

def notFound (m : Model) (cls : ClassId) (name : Located String) : Diagnostic :=
  { problem := .propertyNotFound name.value (className m cls), location := name.location }

/-- The properties that an alias without a name chooses: those that it includes, in its order, or
all that it does not exclude. -/
def chosenProperties (candidates : List (PropertyId × Option String)) (location : Location)
    (a : AliasProperty) : List (PropertyId × Located String) :=
  if a.only.isEmpty then
    candidates.filterMap fun (id, name) =>
      let name := name.getD ""
      if a.exclude.all (·.value != name) then some (id, ⟨name, location⟩) else none
  else a.only.filterMap fun name => (findCandidate candidates name.value).map (·, name)

/-- The names in its lists that no property goes by. -/
def unknownChoices (candidates : List (PropertyId × Option String)) (a : AliasProperty) :
    List (Located String) :=
  (if a.only.isEmpty then a.exclude else a.only).filter fun name =>
    (findCandidate candidates name.value).isNone

/-- One alias of the chosen ones. -/
def expandedAlias (a : AliasProperty) (target : PropertyId) (name : Located String) :
    PropertyKind :=
  .propertyAlias { a with
    property := some { name, target := some target }, only := [], exclude := [] }

/-- What becomes of the alias `a` of the property `p`, whose class is `cls`. -/
def aliasStep (m : Model) (rules : NamingRules) (p : Property) (a : AliasProperty)
    (cls : ClassId) : Step :=
  if !isSettled m cls then { outcome := .blocked }
  else
    let candidates := namedCandidates m rules cls
    let allNamed := candidates.all fun (_, name) => name.isSome
    match a.property with
    | some reference =>
      match findCandidate candidates reference.text with
      | some target =>
        if closesCycle m p.id target then
          { outcome := .failed
            problems :=
              [{ problem := .circularAliasTo (className m cls) reference.text
                 location := reference.location }] }
        else { outcome := .resolve target }
      | none =>
        if allNamed then { outcome := .failed, problems := [notFound m cls reference.name] }
        else { outcome := .blocked }
    | none =>
      if !allNamed then { outcome := .blocked }
      else
        let chosen :=
          (chosenProperties candidates p.location a).map fun (id, name) => expandedAlias a id name
        let problems := (unknownChoices candidates a).map (notFound m cls)
        match p.owner with
        | .returns _ =>
          if chosen.length == 1 then { outcome := .expand chosen, problems }
          else
            { outcome := .failed
              problems := problems ++ [{ problem := .severalReturned, location := p.location }] }
        | _ => { outcome := .expand chosen, problems }

/-- What becomes of a property in a round; an alias of an unknown class fails without a word, since
that class has been reported. -/
def propertyStep (m : Model) (rules : NamingRules) (p : Property) : Step :=
  match p.alias? with
  | none => { outcome := .failed }
  | some a =>
    match a.cls.target with
    | none => { outcome := .failed }
    | some cls => aliasStep m rules p a cls

/-! ### Rounds -/

/-- The model in between, what was found wrong, and the places of the aliases given up. -/
structure AliasState where
  model : Model
  problems : List Diagnostic := []
  failed : List Location := []
deriving Repr

/-- An alias that is not resolved yet. -/
def isOpenAlias (p : Property) : Bool :=
  p.alias?.any fun a => (a.property.bind Reference.target).isNone

/-- The aliases still to be handled, in model order. -/
def pendingAliases (s : AliasState) : List Property :=
  s.model.properties.filter fun p => isOpenAlias p && !s.failed.contains p.location

namespace AliasState

def report (s : AliasState) (problems : List Diagnostic) : AliasState :=
  { s with problems := s.problems ++ problems }

def giveUp (s : AliasState) (p : Property) : AliasState :=
  { s with failed := s.failed ++ [p.location] }

/-- Gives up an alias that is part of a cycle. -/
def giveUpCircular (s : AliasState) (p : Property) : AliasState :=
  (s.report [{ problem := .circularAlias, location := p.location }]).giveUp p

end AliasState

/-- Points the alias `id` to a property. -/
def setAliasTarget (m : Model) (id target : PropertyId) : Model :=
  m.mapProperties fun p =>
    match p.kind with
    | .propertyAlias a =>
      if p.id == id then
        { p with kind := .propertyAlias { a with property := a.property.map (·.resolve target) } }
      else p
    | _ => p

/-- Resolutions of one round may chain into each other, so each is checked against those before. -/
def applyResolution (s : AliasState) (p : Property) (target : PropertyId) : AliasState :=
  if closesCycle s.model p.id target then s.giveUpCircular p
  else { s with model := setAliasTarget s.model p.id target }

/-- Numbers the properties of an owner by their places. -/
def renumber (owner : PropertyOwner) (ps : List Property) : List Property :=
  ps.zipIdx.map fun (p, index) => { p with id := ⟨owner, index⟩ }

/-- The properties that stand in the place of `p`. -/
def spliced (expansions : List (PropertyId × List PropertyKind)) (p : Property) : List Property :=
  match expansions.lookup p.id with
  | some kinds => kinds.map fun kind => { p with kind }
  | none => [p]

/-- Puts the chosen aliases in the places of those that they stand for. -/
def applyExpansions (m : Model) (expansions : List (PropertyId × List PropertyKind)) : Model :=
  m.mapFiles fun f =>
    f.mapLists (fun owner ps => renumber owner (ps.flatMap (spliced expansions))) fun p =>
      (spliced expansions p).headD p

/-- Takes the steps that resolve or expand something; resolutions come first. -/
def applySteps (s : AliasState) (steps : List (Property × Step)) : AliasState :=
  let s := steps.foldl (fun s (p, step) =>
    match step.outcome with
    | .resolve target => applyResolution s p target
    | _ => s) s
  let expansions := steps.filterMap fun (p, step) =>
    match step.outcome with
    | .expand chosen => some (p.id, chosen)
    | _ => none
  { s with model := applyExpansions s.model expansions }

def isProgress (step : Step) : Bool :=
  match step.outcome with
  | .resolve _ | .expand _ => true
  | _ => false

/-- One round over the aliases in `pending`. -/
def aliasRound (rules : NamingRules) (s : AliasState) (pending : List Property) : AliasState :=
  let steps := pending.map fun p => (p, propertyStep s.model rules p)
  let s := s.report (steps.flatMap fun (_, step) => step.problems)
  let s := steps.foldl (fun s (p, step) => if step.outcome == .failed then s.giveUp p else s) s
  if steps.any fun (_, step) => isProgress step then applySteps s steps
  else steps.foldl (fun s (p, step) => if step.outcome == .blocked then s.giveUpCircular p else s) s

def aliasRounds (rules : NamingRules) : Nat → AliasState → AliasState
  | 0, s => s
  | fuel + 1, s =>
    let s := { s with model := resolveAssociations rules true s.model }
    match pendingAliases s with
    | [] => s
    | pending => aliasRounds rules fuel (aliasRound rules s pending)

/-- Resolves and expands all aliases; every round leaves fewer of them pending. -/
def resolveAliases (rules : NamingRules) (m : Model) : AliasState :=
  aliasRounds rules (m.properties.countP isOpenAlias + 1) { model := m }

end EntityModel.Linking
