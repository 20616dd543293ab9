import EntityModel.Proofs.Linking.Stages

/-!
# Linking without uses

Uses serve to look names up.  Once this is done, nothing asks for them any more: with all uses
forgotten (`Model.withoutUses`) every query has the same answer, the rounds over associations and
aliases run alike (`withoutUses_resolveAliases`), and so linking finds the same properties and the
same problems in them (`withoutUses_linkProperties`).  The checks of the linked model do not look at
uses either (`Validation.problems_withoutUses`).
-/

namespace EntityModel

def ModelFile.withoutUses (f : ModelFile) : ModelFile := { f with uses := [], uselessImports := [] }

namespace Model

open Naming

def withoutUses (m : Model) : Model := m.mapFiles ModelFile.withoutUses

theorem withoutUses_mapFiles {g : ModelFile → ModelFile}
    (hg : ∀ f, (g f).withoutUses = g f.withoutUses)
    (m : Model) : (m.mapFiles g).withoutUses = m.withoutUses.mapFiles g := by
  unfold withoutUses mapFiles
  rw [List.map_map, List.map_map]
  exact congrArg Model.mk (List.map_congr_left fun f _ => hg f)

theorem withoutUses_mapLists (m : Model) (lists : PropertyOwner → List Property → List Property)
    (returns : Property → Property) :
    (m.mapLists lists returns).withoutUses = m.withoutUses.mapLists lists returns :=
  withoutUses_mapFiles (g := fun f => f.mapLists lists returns) (fun _ => rfl) m

theorem withoutUses_mapProperties (m : Model) (g : Property → Property) :
    (m.mapProperties g).withoutUses = m.withoutUses.mapProperties g :=
  withoutUses_mapLists m _ _

theorem withoutUses_mapClasses (m : Model) (g : Class → Class) :
    (m.mapClasses g).withoutUses = m.withoutUses.mapClasses g :=
  withoutUses_mapFiles (g := fun f => f.mapClasses g) (fun _ => rfl) m

theorem withoutUses_of_uses {g : ModelFile → ModelFile}
    (hg : ∀ f, (g f).withoutUses = f.withoutUses) (m : Model) :
    (m.mapFiles g).withoutUses = m.withoutUses := by
  unfold withoutUses mapFiles
  rw [List.map_map]
  exact congrArg Model.mk (List.map_congr_left fun f _ => hg f)

/-! ### What is looked up by id, and in model order -/

section Queries

variable (m : Model) (rules : NamingRules)

theorem file?_withoutUses (id : FileId) :
    m.withoutUses.file? id = (m.file? id).map ModelFile.withoutUses :=
  m.file?_mapFiles (g := ModelFile.withoutUses) (fun _ => rfl) id

@[simp] theorem cls?_withoutUses : m.withoutUses.cls? = m.cls? := by
  funext id
  simp only [cls?, file?_withoutUses]
  cases m.file? id.file <;> rfl

@[simp] theorem decorator?_withoutUses : m.withoutUses.decorator? = m.decorator? := by
  funext id
  simp only [decorator?, file?_withoutUses]
  cases m.file? id.file <;> rfl

@[simp] theorem domain?_withoutUses : m.withoutUses.domain? = m.domain? := by
  funext id
  simp only [domain?, file?_withoutUses]
  cases m.file? id.file <;> rfl

@[simp] theorem endpoint?_withoutUses : m.withoutUses.endpoint? = m.endpoint? := by
  funext id
  simp only [endpoint?, file?_withoutUses]
  cases m.file? id.file <;> rfl

@[simp] theorem property?_withoutUses : m.withoutUses.property? = m.property? := by
  have howned : m.withoutUses.ownedBy? = m.ownedBy? := by
    funext owner
    cases owner <;> simp [ownedBy?]
  funext id
  simp only [property?, howned, endpoint?_withoutUses]

@[simp] theorem classes_withoutUses : m.withoutUses.classes = m.classes := List.flatMap_map ..

@[simp] theorem decorators_withoutUses : m.withoutUses.decorators = m.decorators :=
  List.flatMap_map ..

@[simp] theorem domains_withoutUses : m.withoutUses.domains = m.domains := List.flatMap_map ..

@[simp] theorem endpoints_withoutUses : m.withoutUses.endpoints = m.endpoints := List.flatMap_map ..

@[simp] theorem properties_withoutUses : m.withoutUses.properties = m.properties := by
  simp [properties]

/-! ### Properties of classes, and names -/

@[simp] theorem classProperties_withoutUses :
    m.withoutUses.classProperties = m.classProperties := by
  funext id
  simp only [classProperties, propertiesOf, cls?_withoutUses, decorator?_withoutUses]

@[simp] theorem parent?_withoutUses : m.withoutUses.parent? = m.parent? := by
  funext id
  simp only [parent?, cls?_withoutUses]

@[simp] theorem primaryKey_withoutUses : m.withoutUses.primaryKey = m.primaryKey := by
  funext id
  simp only [primaryKey, classProperties_withoutUses]

@[simp] theorem keyOf_withoutUses : m.withoutUses.keyOf = m.keyOf := by
  funext a
  simp only [keyOf, singlePrimaryKey, primaryKey_withoutUses]

theorem nameWithin_withoutUses (fuel : Nat) :
    m.withoutUses.nameWithin rules fuel = m.nameWithin rules fuel := by
  induction fuel with
  | zero => rfl
  | succ fuel ih =>
    funext id
    simp only [nameWithin, property?_withoutUses, cls?_withoutUses, keyOf_withoutUses, ih]

@[simp] theorem propertyName?_withoutUses :
    m.withoutUses.propertyName? rules = m.propertyName? rules :=
  m.nameWithin_withoutUses rules _

@[simp] theorem propertyName_withoutUses :
    m.withoutUses.propertyName rules = m.propertyName rules := by
  funext id
  simp only [propertyName, propertyName?_withoutUses]

@[simp] theorem findProperty_withoutUses :
    m.withoutUses.findProperty rules = m.findProperty rules := by
  funext id name
  simp only [findProperty, classProperties_withoutUses, propertyName?_withoutUses]

/-! ### Domains of properties -/

theorem applyAs_withoutUses : m.withoutUses.applyAs = m.applyAs := by
  funext p base
  simp only [applyAs, domain?_withoutUses]

theorem baseFrom_withoutUses : m.withoutUses.baseFrom = m.baseFrom := by
  funext effective p
  simp only [baseFrom, nextOnChain, keyOf_withoutUses]

theorem effectiveWithin_withoutUses (fuel : Nat) :
    m.withoutUses.effectiveWithin fuel = m.effectiveWithin fuel := by
  induction fuel with
  | zero => rfl
  | succ fuel ih =>
    funext id
    simp only [effectiveWithin, property?_withoutUses, applyAs_withoutUses,
      baseFrom_withoutUses, ih]

@[simp] theorem baseDomain_withoutUses : m.withoutUses.baseDomain = m.baseDomain := by
  funext id
  simp only [baseDomain, property?_withoutUses, baseFrom_withoutUses, effectiveWithin_withoutUses]

@[simp] theorem isBodyParam_withoutUses : m.withoutUses.isBodyParam = m.isBodyParam := by
  funext id
  simp only [isBodyParam, effectiveDomain, property?_withoutUses, domain?_withoutUses,
    effectiveWithin_withoutUses]

end Queries

end Model

namespace Linking

variable (m : Model) (rules : NamingRules)

/-! ### Associations -/

@[simp] theorem className_withoutUses : className m.withoutUses = className m := by
  funext id
  simp only [className, Model.cls?_withoutUses]

@[simp] theorem isSettled_withoutUses : isSettled m.withoutUses = isSettled m := by
  funext id
  simp only [isSettled, Model.classProperties_withoutUses]

theorem associationTarget_withoutUses (settledOnly : Bool) :
    associationTarget m.withoutUses rules settledOnly = associationTarget m rules settledOnly := by
  funext p
  simp only [associationTarget, isSettled_withoutUses, Model.findProperty_withoutUses]

theorem withoutUses_associationRounds (settledOnly : Bool) (fuel : Nat) : ∀ m : Model,
    (associationRounds rules settledOnly fuel m).withoutUses
      = associationRounds rules settledOnly fuel m.withoutUses := by
  induction fuel with
  | zero => exact fun _ => rfl
  | succ fuel ih =>
    intro m
    have hround : (associationRound m rules settledOnly).withoutUses
        = associationRound m.withoutUses rules settledOnly := by
      rw [associationRound, associationRound, associationTarget_withoutUses,
        Model.withoutUses_mapProperties]
    simp only [associationRounds, Model.properties_withoutUses, associationTarget_withoutUses,
      ← hround, ← ih]
    split <;> rfl

theorem withoutUses_resolveAssociations (settledOnly : Bool) :
    (resolveAssociations rules settledOnly m).withoutUses
      = resolveAssociations rules settledOnly m.withoutUses := by
  rw [resolveAssociations, resolveAssociations, withoutUses_associationRounds,
    Model.properties_withoutUses]

/-! ### Aliases -/

theorem chainReturns_withoutUses (source : PropertyId) (fuel : Nat) :
    chainReturns m.withoutUses source fuel = chainReturns m source fuel := by
  have htarget : aliasTarget m.withoutUses = aliasTarget m := by
    funext id
    simp only [aliasTarget, Model.property?_withoutUses]
  induction fuel with
  | zero =>
    funext seen at'
    cases at' <;> rfl
  | succ fuel ih =>
    funext seen at'
    cases at' with
    | none => rfl
    | some id => simp only [chainReturns, htarget, ih]

theorem closesCycle_withoutUses : closesCycle m.withoutUses = closesCycle m := by
  funext source target
  simp only [closesCycle, chainReturns_withoutUses, Model.properties_withoutUses]

theorem propertyStep_withoutUses : propertyStep m.withoutUses rules = propertyStep m rules := by
  have hcandidates : namedCandidates m.withoutUses rules = namedCandidates m rules := by
    funext cls
    simp only [namedCandidates, Model.classProperties_withoutUses, Model.propertyName?_withoutUses]
  have hnotFound : notFound m.withoutUses = notFound m := by
    funext cls name
    simp only [notFound, className_withoutUses]
  have hstep : aliasStep m.withoutUses rules = aliasStep m rules := by
    funext p a cls
    simp only [aliasStep, isSettled_withoutUses, hcandidates, hnotFound, closesCycle_withoutUses,
      className_withoutUses]
  funext p
  simp only [propertyStep, hstep]

namespace AliasState

def withoutUses (s : AliasState) : AliasState := { s with model := s.model.withoutUses }

theorem model_withoutUses (s : AliasState) : s.withoutUses.model = s.model.withoutUses := rfl

theorem problems_withoutUses (s : AliasState) : s.withoutUses.problems = s.problems := rfl

end AliasState

theorem pendingAliases_withoutUses (s : AliasState) :
    pendingAliases s.withoutUses = pendingAliases s := by
  simp only [pendingAliases, AliasState.withoutUses, Model.properties_withoutUses]

theorem withoutUses_applyResolution (s : AliasState) (p : Property) (target : PropertyId) :
    (applyResolution s p target).withoutUses = applyResolution s.withoutUses p target := by
  have hset : (setAliasTarget s.model p.id target).withoutUses
      = setAliasTarget s.model.withoutUses p.id target :=
    Model.withoutUses_mapProperties _ _
  unfold applyResolution
  rw [AliasState.model_withoutUses, closesCycle_withoutUses, ← hset]
  split <;> rfl

theorem withoutUses_applySteps (s : AliasState) (steps : List (Property × Step)) :
    (applySteps s steps).withoutUses = applySteps s.withoutUses steps := by
  have hresolved : (steps.foldl resolveStep s).withoutUses
      = steps.foldl resolveStep s.withoutUses := by
    refine (List.foldl_hom AliasState.withoutUses fun s x => ?_).symm
    unfold resolveStep
    cases x.2.outcome with
    | resolve target => exact (withoutUses_applyResolution s x.1 target).symm
    | expand | blocked | failed => rfl
  rw [applySteps_eq, applySteps_eq, ← hresolved]
  exact congrArg (fun model => { steps.foldl resolveStep s with model })
    (Model.withoutUses_mapLists _ _ _)

theorem withoutUses_aliasRound (s : AliasState) (pending : List Property) :
    (aliasRound rules s pending).withoutUses = aliasRound rules s.withoutUses pending := by
  have hsteps : stepsOf rules s.withoutUses.model = stepsOf rules s.model := by
    funext pending
    exact congrArg (fun step => pending.map fun p => (p, step p))
      (propertyStep_withoutUses s.model rules)
  have hfailures : (afterFailures rules s pending).withoutUses
      = afterFailures rules s.withoutUses pending := by
    unfold afterFailures
    rw [hsteps]
    exact (List.foldl_hom AliasState.withoutUses fun s x => by cases x.2.outcome <;> rfl).symm
  rw [aliasRound_eq, aliasRound_eq, hsteps, ← hfailures]
  split
  · exact withoutUses_applySteps _ _
  · exact (List.foldl_hom AliasState.withoutUses fun s x => by cases x.2.outcome <;> rfl).symm

theorem withoutUses_aliasRounds (fuel : Nat) : ∀ s : AliasState,
    (aliasRounds rules fuel s).withoutUses = aliasRounds rules fuel s.withoutUses := by
  induction fuel with
  | zero => exact fun _ => rfl
  | succ fuel ih =>
    intro s
    have hassociated :
        ({ s with model := resolveAssociations rules true s.model } : AliasState).withoutUses
          = { s.withoutUses with model := resolveAssociations rules true s.withoutUses.model } :=
      congrArg (fun model => AliasState.mk model _ _) (withoutUses_resolveAssociations _ _ _)
    unfold aliasRounds
    simp only [← hassociated, pendingAliases_withoutUses]
    split
    · rfl
    · rw [ih, withoutUses_aliasRound]

/-- **The rounds over aliases do not look at uses.** -/
theorem withoutUses_resolveAliases :
    (resolveAliases rules m).withoutUses = resolveAliases rules m.withoutUses := by
  rw [resolveAliases, resolveAliases, withoutUses_aliasRounds, Model.properties_withoutUses]
  rfl

/-! ### The end of linking -/

theorem associationProblems_withoutUses :
    associationProblems m.withoutUses = associationProblems m := by
  simp only [associationProblems, Model.properties_withoutUses, className_withoutUses]

theorem propertyReferenceProblems_withoutUses :
    propertyReferenceProblems m.withoutUses = propertyReferenceProblems m := by
  rw [propertyReferenceProblems, propertyReferenceProblems, Model.classes_withoutUses]

theorem asDomainProblems_withoutUses : asDomainProblems m.withoutUses = asDomainProblems m := by
  have hproblem : asDomainProblem m.withoutUses = asDomainProblem m := by
    funext p
    simp only [asDomainProblem, Model.domain?_withoutUses, Model.baseDomain_withoutUses]
  rw [asDomainProblems, asDomainProblems, Model.properties_withoutUses, hproblem]

theorem withoutUses_resolvePropertyReferences :
    (resolvePropertyReferences rules m).withoutUses
      = resolvePropertyReferences rules m.withoutUses := by
  rw [resolvePropertyReferences, resolvePropertyReferences, Model.findProperty_withoutUses]
  exact Model.withoutUses_mapClasses _ _

/-- **The stages behind the names do not look at uses.** -/
theorem withoutUses_linkProperties :
    (linkProperties rules m).model.withoutUses = (linkProperties rules m.withoutUses).model ∧
      (linkProperties rules m).problems = (linkProperties rules m.withoutUses).problems := by
  have haliases : resolveAliases rules m.withoutUses = (resolveAliases rules m).withoutUses :=
    (withoutUses_resolveAliases m rules).symm
  have hassociated : resolveAssociations rules false (resolveAliases rules m.withoutUses).model
      = (resolveAssociations rules false (resolveAliases rules m).model).withoutUses := by
    rw [haliases, withoutUses_resolveAssociations, AliasState.model_withoutUses]
  have hproblems : (resolveAliases rules m.withoutUses).problems
      = (resolveAliases rules m).problems := by
    rw [haliases, AliasState.problems_withoutUses]
  simp only [linkProperties, hassociated, hproblems, ← withoutUses_resolvePropertyReferences,
    associationProblems_withoutUses, propertyReferenceProblems_withoutUses,
    asDomainProblems_withoutUses, and_self]

theorem usedDomains_withoutUses : usedDomains m.withoutUses = usedDomains m := by
  have hreferences : m.withoutUses.files.flatMap fileReferences
      = m.files.flatMap fileReferences := by
    simp only [Model.withoutUses, Model.mapFiles, List.flatMap_map]
    rfl
  have hfind : findDomain m.withoutUses = findDomain m := by
    funext name
    rw [findDomain, findDomain, Model.domainNamed?, Model.domainNamed?, Model.domains_withoutUses]
  have hexchanged : exchangedDomainName m.withoutUses = exchangedDomainName m := by
    funext p
    simp only [exchangedDomainName, Model.domain?_withoutUses, Model.baseDomain_withoutUses]
  rw [usedDomains, usedDomains, domainLookUps, domainLookUps, hreferences, hfind, hexchanged,
    Model.properties_withoutUses]

theorem isDomainUsed_withoutUses : isDomainUsed m.withoutUses = isDomainUsed m := by
  funext id
  rw [isDomainUsed, isDomainUsed, usedDomains_withoutUses]

theorem inheritanceCycles_withoutUses : inheritanceCycles m.withoutUses = inheritanceCycles m := by
  have hcircular : m.withoutUses.inheritsFromItself = m.inheritsFromItself := by
    funext id
    simp only [Model.inheritsFromItself, Model.parent?_withoutUses, Model.classes_withoutUses]
  rw [inheritanceCycles, inheritanceCycles, hcircular, Model.classes_withoutUses]

end Linking

namespace Validation

theorem duplicates_withoutUses (m : Model) : duplicates m.withoutUses = duplicates m := by
  simp only [duplicates, duplicateClasses, duplicateDecorators, duplicateDomains,
    duplicateEndpoints, duplicateTrigrams, withTrigrams, Model.classes_withoutUses,
    Model.decorators_withoutUses, Model.domains_withoutUses, Model.endpoints_withoutUses]

/-- **The checks of the linked model do not look at uses.** -/
theorem problems_withoutUses (m : Model) (rules : NamingRules) :
    problems m.withoutUses rules = problems m rules := by
  have hrequired : isRequiredInValues m.withoutUses = isRequiredInValues m := by
    funext p
    simp only [isRequiredInValues, Model.domain?_withoutUses]
  have hbases : baseCount m.withoutUses = baseCount m := by
    funext c language
    simp only [baseCount, Model.decorator?_withoutUses]
  have hclass : classProblems m.withoutUses rules = classProblems m rules := by
    funext c
    simp only [classProblems, compositeKey, duplicateProperties, namedProperties,
      severalBases, hbases, missingValues, hrequired, Model.primaryKey_withoutUses,
      Model.classProperties_withoutUses, Model.propertyName?_withoutUses,
      Model.propertyName_withoutUses]
  have hassociation : associationProblem m.withoutUses = associationProblem m := by
    funext p
    simp only [associationProblem, Model.primaryKey_withoutUses, Model.cls?_withoutUses]
  have hparameter : parameterProblems m.withoutUses rules = parameterProblems m rules := by
    funext e
    simp only [parameterProblems, isQueryParam, isRouteParam, Model.propertyName_withoutUses,
      Model.isBodyParam_withoutUses]
  simp only [problems, duplicates_withoutUses, hclass, hassociation, hparameter,
    Model.classes_withoutUses, Model.properties_withoutUses, Model.endpoints_withoutUses]

end Validation

end EntityModel
