import EntityModel.Proofs.Linking.Accounted
import EntityModel.Proofs.Linking.Fixpoints
import EntityModel.Proofs.Linking.Replacements

/-!
# References are resolved once

A reference must not be resolved again once it points somewhere.  Here linking is told with a check
for it: `Reference.resolve?` fails on a reference that is resolved, and the functions that resolve
references are told with it in the place of `Reference.resolve`, up to `Model.link?`.  One failure
makes all of linking fail.  It never does for models as they were loaded, and so comes to what
linking without the check comes to (`Model.link?_eq`): by name each reference is looked up once, the
rounds only handle what is open, and an alias put in place of a choice gets a reference of its own.
-/

namespace EntityModel

/-- Resolves a reference that must not be resolved yet. -/
def Reference.resolve? {α : Type} (r : Reference α) (target : α) : Option (Reference α) :=
  if r.target.isSome then none else some (r.resolve target)

theorem Reference.resolve?_eq {α : Type} {r : Reference α} (h : r.target = none) (target : α) :
    r.resolve? target = some (r.resolve target) := by
  simp [resolve?, h]

/-! ### Maps that may fail -/

section

variable {α β : Type} {g? : α → Option β} {g : α → β}

theorem mapM_eq_some_map {l : List α} (h : ∀ a ∈ l, g? a = some (g a)) :
    l.mapM g? = some (l.map g) := by
  induction l with
  | nil => rfl
  | cons a l ih =>
    rw [List.mapM_cons, h a List.mem_cons_self, ih fun b hb => h b (List.mem_cons_of_mem _ hb)]
    rfl

theorem optionMapM_eq_some_map {o : Option α} (h : ∀ a, o = some a → g? a = some (g a)) :
    o.mapM g? = some (o.map g) := by
  cases o with
  | none => rfl
  | some a =>
    rw [Option.mapM_some, h a rfl]
    rfl

theorem foldlM_eq_some_foldl {f? : β → α → Option β} {f : β → α → β} {l : List α} {b : β}
    (h : ∀ before a after, l = before ++ a :: after →
      f? (before.foldl f b) a = some (f (before.foldl f b) a)) :
      l.foldlM f? b = some (l.foldl f b) := by
  induction l generalizing b with
  | nil => rfl
  | cons a l ih =>
    have hfirst : f? b a = some (f b a) := h [] a l rfl
    rw [List.foldlM_cons, hfirst]
    exact ih fun before c after he => h (a :: before) c after (by rw [he]; rfl)

end

namespace ModelFile

def mapPropertiesM (g : Property → Option Property) (f : ModelFile) : Option ModelFile := do
  let classes ← f.classes.mapM fun c => do return { c with properties := ← c.properties.mapM g }
  let decorators ← f.decorators.mapM
    fun d => do return { d with properties := ← d.properties.mapM g }
  let endpoints ← f.endpoints.mapM fun e => do
    return { e with params := ← e.params.mapM g, returns := ← e.returns.mapM g }
  return { f with classes, decorators, endpoints }

theorem mapPropertiesM_eq {g? : Property → Option Property} {g : Property → Property}
    {f : ModelFile}
    (h : ∀ p ∈ f.properties, g? p = some (g p)) :
    f.mapPropertiesM g? = some (f.mapProperties g) := by
  have hclasses : (f.classes.mapM
        fun c => do return { c with properties := ← c.properties.mapM g? })
      = some (f.classes.map fun c => { c with properties := c.properties.map g }) :=
    mapM_eq_some_map fun c hc => by
      rw [mapM_eq_some_map fun p hp => h p (List.mem_append_left _ (List.mem_append_left _
        (List.mem_flatMap.mpr ⟨c, hc, hp⟩)))]
      rfl
  have hdecorators :
      (f.decorators.mapM fun d => do return { d with properties := ← d.properties.mapM g? })
        = some (f.decorators.map fun d => { d with properties := d.properties.map g }) :=
    mapM_eq_some_map fun d hd => by
      rw [mapM_eq_some_map fun p hp => h p (List.mem_append_left _ (List.mem_append_right _
        (List.mem_flatMap.mpr ⟨d, hd, hp⟩)))]
      rfl
  have hendpoints : (f.endpoints.mapM fun e => do
        return { e with params := ← e.params.mapM g?, returns := ← e.returns.mapM g? })
      = some (f.endpoints.map fun e => e.mapParts (·.map g) g) :=
    mapM_eq_some_map fun e he => by
      have hpart : ∀ p ∈ e.properties, g? p = some (g p) := fun p hp =>
        h p (List.mem_append_right _ (List.mem_flatMap.mpr ⟨e, he, hp⟩))
      rw [mapM_eq_some_map fun p hp => hpart p (List.mem_append_left _ hp),
        optionMapM_eq_some_map fun p hp =>
          hpart p (List.mem_append_right _ (Option.mem_toList.mpr hp))]
      rfl
  unfold mapPropertiesM
  rw [hclasses, hdecorators, hendpoints]
  rfl

end ModelFile

namespace Model

def mapFilesM (g : ModelFile → Option ModelFile) (m : Model) :
    Option Model := do return ⟨← m.files.mapM g⟩

def mapPropertiesM (g : Property → Option Property) (m : Model) : Option Model :=
  m.mapFilesM (·.mapPropertiesM g)

theorem mapFilesM_eq {g? : ModelFile → Option ModelFile} {g : ModelFile → ModelFile} {m : Model}
    (h : ∀ f ∈ m.files, g? f = some (g f)) : m.mapFilesM g? = some (m.mapFiles g) := by
  unfold mapFilesM
  rw [mapM_eq_some_map h]
  rfl

theorem mapPropertiesM_eq {g? : Property → Option Property} {g : Property → Property} {m : Model}
    (h : ∀ p ∈ m.properties, g? p = some (g p)) : m.mapPropertiesM g? = some (m.mapProperties g) :=
  mapFilesM_eq fun _ hf => ModelFile.mapPropertiesM_eq fun p hp => h p (properties_of_mem hf hp)

end Model

namespace Linking

open ModelFile (only)

variable {rules : NamingRules} {m : Model}

/-! ### Uses and aliases of files -/

def resolvedUse? (m : Model) (seen : List String) (use : FileReference) : Option FileReference :=
  if seen.contains use.text then some use
  else match m.fileNamed? use.text with
    | some f => use.resolve? f.id
    | none => some use

def resolveUsesFrom? (m : Model) : List String → List FileReference → Option (List FileReference)
  | _, [] => some []
  | seen, use :: rest => do
    return (← resolvedUse? m seen use) :: (← resolveUsesFrom? m (use.text :: seen) rest)

def resolveUses? (m : Model) : Option Model :=
  m.mapFilesM fun f => do return { f with uses := ← resolveUsesFrom? m [] f.uses }

theorem resolvedUse?_eq (m : Model) (seen : List String) {use : FileReference}
    (h : use.target = none) :
    resolvedUse? m seen use = some (resolvedUse m seen use) := by
  unfold resolvedUse? resolvedUse
  split
  · rfl
  · cases m.fileNamed? use.text with
    | none => rfl
    | some f => exact Reference.resolve?_eq h f.id

theorem resolveUsesFrom?_eq (m : Model) (uses : List FileReference)
    (h : ∀ u ∈ uses, u.target = none) :
    ∀ seen, resolveUsesFrom? m seen uses = some (resolveUsesFrom m seen uses) := by
  induction uses with
  | nil => exact fun _ => rfl
  | cons use rest ih =>
    intro seen
    rw [resolveUsesFrom?, resolvedUse?_eq m seen (h use List.mem_cons_self),
      ih fun u hu => h u (List.mem_cons_of_mem _ hu)]
    rfl

theorem resolveUses?_eq (h : ∀ f ∈ m.files, ∀ u ∈ f.uses, u.target = none) :
    resolveUses? m = some (resolveUses m) :=
  Model.mapFilesM_eq fun f hf => by rw [resolveUsesFrom?_eq m f.uses (h f hf)]; rfl

def resolveBy? {α : Type} (find : String → Option α) (r : Reference α) : Option (Reference α) :=
  match find r.text with
  | some target => r.resolve? target
  | none => some r

theorem resolveBy?_eq {α : Type} (find : String → Option α) {r : Reference α}
    (h : r.target = none) :
    resolveBy? find r = some (resolveBy find r) := by
  unfold resolveBy? resolveBy
  cases find r.text with
  | none => rfl
  | some target => exact Reference.resolve?_eq h target

def resolveAlias? (m : Model) (a : Alias) : Option Alias :=
  match m.fileNamed? a.file.text with
  | none => some a
  | some f => do
    return { a with
      file := ← a.file.resolve? f.id
      classes := ← a.classes.mapM fun rs => rs.mapM (resolveBy? (findClass f))
      endpoints := ← a.endpoints.mapM fun rs => rs.mapM (resolveBy? (findEndpoint f)) }

def resolveFileAliases? (m : Model) : Option Model :=
  m.mapFilesM fun f => do
    let aliases ← f.aliases.mapM (resolveAlias? m)
    let found := aliases.flatMap fun a =>
      (aliasedEntities m a).map fun entity => { aliasId := a.id, entity, location := a.location }
    return { f with aliases, resolvedAliases := f.resolvedAliases ++ found }

theorem resolveAlias?_eq (m : Model) {a : Alias} (h : AliasOpen a) :
    resolveAlias? m a = some (resolveAlias m a) := by
  unfold resolveAlias? resolveAlias
  cases m.fileNamed? a.file.text with
  | none => rfl
  | some f =>
    simp only []
    rw [Reference.resolve?_eq h.file,
      optionMapM_eq_some_map fun rs hrs => mapM_eq_some_map fun r hr =>
        resolveBy?_eq (findClass f) (h.classes r (by rw [hrs]; exact hr)),
      optionMapM_eq_some_map fun rs hrs => mapM_eq_some_map fun r hr =>
        resolveBy?_eq (findEndpoint f) (h.endpoints r (by rw [hrs]; exact hr))]
    rfl

theorem resolveFileAliases?_eq (h : ∀ f ∈ m.files, ∀ a ∈ f.aliases, AliasOpen a) :
    resolveFileAliases? m = some (resolveFileAliases m) :=
  Model.mapFilesM_eq fun f hf => by
    rw [mapM_eq_some_map fun a ha => resolveAlias?_eq m (h f hf a ha)]
    rfl

/-! ### References by name -/

def resolveKind? (cls : String → Option ClassId) (domain : String → Option DomainId) :
    PropertyKind → Option PropertyKind
  | .regular p => do return .regular { p with domain := ← resolveBy? domain p.domain }
  | .association p => do
    return .association { p with association := ← resolveBy? cls p.association }
  | .composition p => do
    return .composition { p with
      composition := ← resolveBy? cls p.composition
      domain := ← p.domain.mapM (resolveBy? domain) }
  | .propertyAlias p => do return .propertyAlias { p with cls := ← resolveBy? cls p.cls }

def resolveUsage? (decorator : String → Option DecoratorId) (u : DecoratorUsage) :
    Option DecoratorUsage := do
  return { u with decorator := ← resolveBy? decorator u.decorator }

def resolveDomains? (domain : String → Option DomainId) (f : ModelFile) : Option ModelFile := do
  let domains ← f.domains.mapM fun d => do
    return { d with asDomains := ← d.asDomains.mapM fun x => do return (x.1,
      ← resolveBy? domain x.2) }
  return { f with domains }

def resolveClassHeads? (s : Scope) (f : ModelFile) : Option ModelFile := do
  let classes ← f.classes.mapM fun c => do
    return { c with
      parent := ← c.parent.mapM (resolveBy? s.findClass)
      decorators := ← c.decorators.mapM (resolveUsage? s.findDecorator) }
  return { f with classes }

def resolveReferencesOf? (m : Model) (f : ModelFile) : Option ModelFile := do
  let s := scopeOf m f
  let domained ← resolveDomains? (findDomain m) f
  let headed ← resolveClassHeads? s domained
  headed.mapPropertiesM fun p => do
    return { p with kind := ← resolveKind? s.findClass (findDomain m) p.kind }

def resolveReferences? (m : Model) : Option Model := m.mapFilesM (resolveReferencesOf? m)

theorem isResolved_of_draft {d : ModelFile} (hd : d.Fresh) {x : EntityReference}
    (hx : x ∈ fileReferences d) :
    x.isResolved = false := by
  have ho := open_of_draft hd hx
  cases x with
  | cls r | decorator r | domain r =>
    simpa [EntityReference.target, EntityReference.isResolved] using ho

/-- The references of a class, decorator or domain are looked up where they are open. -/
theorem target_of_open {α : Type} {r : Reference α} (h : r.target.isSome = false) :
    r.target = none := by
  simpa using h

theorem resolveKind?_eq (cls : String → Option ClassId) (domain : String → Option DomainId)
    {p : Property} (h : ∀ x ∈ propertyReferences p, x.isResolved = false) :
    resolveKind? cls domain p.kind = some (resolveKind cls domain p.kind) := by
  obtain ⟨id, l, k⟩ := p
  cases k with
  | regular a =>
    rw [resolveKind?, resolveBy?_eq domain
      (target_of_open (h (.domain a.domain) (List.mem_singleton_self _)))]
    rfl
  | association a =>
    rw [resolveKind?, resolveBy?_eq cls
      (target_of_open (h (.cls a.association) (List.mem_singleton_self _)))]
    rfl
  | composition a =>
    rw [resolveKind?, resolveBy?_eq
      cls (target_of_open (h (.cls a.composition) List.mem_cons_self)),
      optionMapM_eq_some_map fun r hr => resolveBy?_eq domain (target_of_open (h (.domain r)
        (List.mem_cons_of_mem _ (List.mem_map_of_mem (Option.mem_toList.mpr hr)))))]
    rfl
  | propertyAlias a =>
    rw [resolveKind?, resolveBy?_eq
      cls (target_of_open (h (.cls a.cls) (List.mem_singleton_self _)))]
    rfl

theorem resolveDomains?_eq (domain : String → Option DomainId) {f : ModelFile}
    (h : ∀ d ∈ f.domains, ∀ x ∈ d.asDomains, x.2.target = none) :
    resolveDomains? domain f = some (resolveDomains domain f) := by
  unfold resolveDomains?
  rw [mapM_eq_some_map (g := fun d : Domain =>
    { d with asDomains := d.asDomains.map fun x => (x.1, resolveBy domain x.2) }) fun d hd => by
      rw [mapM_eq_some_map (g := fun x : String × DomainReference => (x.1, resolveBy domain x.2))
          fun x hx => by
        rw [resolveBy?_eq domain (h d hd x hx)]; rfl]
      rfl]
  rfl

theorem resolveClassHeads?_eq (s : Scope) {f : ModelFile}
    (hparent : ∀ c ∈ f.classes, ∀ r, c.parent = some r → r.target = none)
    (husage : ∀ c ∈ f.classes, ∀ u ∈ c.decorators, u.decorator.target = none) :
    resolveClassHeads? s f = some (resolveClassHeads s f) := by
  unfold resolveClassHeads?
  rw [mapM_eq_some_map (g := fun c : Class =>
    { c with
      parent := c.parent.map (resolveBy s.findClass)
      decorators := c.decorators.map (resolveUsage s.findDecorator) }) fun c hc => by
      rw [optionMapM_eq_some_map fun r hr => resolveBy?_eq s.findClass (hparent c hc r hr),
        mapM_eq_some_map (g := resolveUsage s.findDecorator) fun u hu => by
          rw [resolveUsage?, resolveBy?_eq s.findDecorator (husage c hc u hu)]; rfl]
      rfl]
  rfl

theorem resolveReferencesOf?_eq (m : Model) {f : ModelFile}
    (h : ∀ x ∈ fileReferences f, x.isResolved = false) :
    resolveReferencesOf? m f = some (resolveReferencesOf m f) := by
  have hdomains : ∀ d ∈ f.domains, ∀ x ∈ d.asDomains, x.2.target = none := fun d hd x hx =>
    target_of_open (h (.domain x.2)
      (List.mem_append_left
        _ (List.mem_append_left
          _ (List.mem_append_left
            _ (List.mem_flatMap.mpr ⟨d, hd, List.mem_map.mpr ⟨x, hx, rfl⟩⟩)))))
  have hclass : ∀ c ∈ f.classes, ∀ x ∈ classReferences c, x.isResolved = false := fun c hc x hx =>
    h x (List.mem_append_left _ (List.mem_append_right _ (List.mem_flatMap.mpr ⟨c, hc, hx⟩)))
  have hparent : ∀ c ∈ f.classes, ∀ r, c.parent = some r → r.target = none := fun c hc r hr =>
    target_of_open (hclass c hc (.cls r) (List.mem_append_left _ (List.mem_append_left _
      (List.mem_map_of_mem (Option.mem_toList.mpr hr)))))
  have husage : ∀ c ∈ f.classes, ∀ u ∈ c.decorators, u.decorator.target = none := fun c hc u hu =>
    target_of_open (hclass c hc (.decorator u.decorator)
      (List.mem_append_left _ (List.mem_append_right _ (List.mem_map.mpr ⟨u, hu, rfl⟩))))
  have hheads :=
    resolveClassHeads?_eq (scopeOf m f) (f := resolveDomains (findDomain m) f) hparent husage
  have hproperties : (resolveClassHeads (scopeOf m f) (resolveDomains (findDomain m) f)).properties
      = f.properties := by
    simp [ModelFile.properties, resolveClassHeads, ModelFile.mapClasses, resolveDomains,
      List.flatMap_map]
  unfold resolveReferencesOf?
  simp only [resolveDomains?_eq _ hdomains, hheads, Option.bind_eq_bind, Option.bind_some]
  refine ModelFile.mapPropertiesM_eq (g := resolveProperty m f) fun p hp => ?_
  rw [hproperties] at hp
  rw [resolveKind?_eq _ _ fun x hx => h x (mem_fileReferences hp hx)]
  rfl

theorem resolveReferences?_eq (h : ∀ f ∈ m.files, ∀ x ∈ fileReferences f, x.isResolved = false) :
    resolveReferences? m = some (resolveReferences m) :=
  Model.mapFilesM_eq fun f hf => resolveReferencesOf?_eq m (h f hf)

def linkNames? (m : Model) : Option Linked := do
  let used ← resolveUses? m
  let aliased ← resolveFileAliases? used
  let resolved ← resolveReferences? aliased
  return {
    model := noteUselessUses resolved
    problems :=
      useProblems used ++ circularUses used ++ fileAliasProblems aliased
        ++ referenceProblems resolved
        ++ inheritanceCycles resolved }

/-- **By name every reference is resolved once.** -/
theorem linkNames?_eq (h : m.AsLoaded) : linkNames? m = some (linkNames m) := by
  have hused := resolveUses?_eq fun f hf u hu => (Reference.of_fixed ((h.fresh f hf).uses u hu)).1
  have haliased : resolveFileAliases? (resolveUses m)
      = some (resolveFileAliases (resolveUses m)) := by
    refine resolveFileAliases?_eq fun f hf a ha => ?_
    obtain ⟨d, hd, rfl⟩ := List.mem_map.mp hf
    exact aliasOpen_of_fixed ((h.fresh d hd).aliases a ha)
  have hresolved : resolveReferences? (resolveFileAliases (resolveUses m))
      = some (resolveReferences (resolveFileAliases (resolveUses m))) := by
    refine resolveReferences?_eq fun f hf x hx => ?_
    obtain ⟨u, hu, rfl⟩ := List.mem_map.mp hf
    obtain ⟨d, hd, rfl⟩ := List.mem_map.mp hu
    exact isResolved_of_draft (h.fresh d hd) hx
  unfold linkNames?
  rw [hused]
  simp only [haliased, hresolved, Option.bind_eq_bind, Option.bind_some]
  rfl

/-! ### Associations -/

def withAssociationTarget? (target : Option PropertyId) (p : Property) : Option Property :=
  match p.kind, target with
  | .association a, some id => do
    return { p with kind := .association { a with property := ← a.property.mapM (·.resolve? id) } }
  | _, _ => some p

def associationRound? (m : Model) (rules : NamingRules) (settledOnly : Bool) : Option Model :=
  m.mapPropertiesM fun p => withAssociationTarget? (associationTarget m rules settledOnly p) p

def associationRounds? (rules : NamingRules) (settledOnly : Bool) : Nat → Model → Option Model
  | 0, m => some m
  | fuel + 1, m =>
    if m.properties.any fun p => (associationTarget m rules settledOnly p).isSome then do
      associationRounds? rules settledOnly fuel (← associationRound? m rules settledOnly)
    else some m

def resolveAssociations? (rules : NamingRules) (settledOnly : Bool) (m : Model) : Option Model :=
  associationRounds? rules settledOnly (m.properties.countP (fun p => (openTarget p).isSome) + 1) m

theorem associationRound?_eq (m : Model) (rules : NamingRules) (settledOnly : Bool) :
    associationRound? m rules settledOnly = some (associationRound m rules settledOnly) := by
  refine Model.mapPropertiesM_eq fun p _ => ?_
  unfold withAssociationTarget? withAssociationTarget
  cases hfound : associationTarget m rules settledOnly p with
  | none => cases p.kind <;> rfl
  | some t =>
    obtain ⟨C, r, ho, -⟩ := associationTarget_eq_some.mp hfound
    obtain ⟨a, hk, hr, -, ht⟩ := openTarget_eq_some.mp ho
    simp only [hk]
    rw [optionMapM_eq_some_map fun x hx =>
      Reference.resolve?_eq (by rw [← Option.some.inj (hr.symm.trans hx), ht]) t]
    rfl

theorem associationRounds?_eq (rules : NamingRules) (settledOnly : Bool) (fuel : Nat) : ∀ m : Model,
    associationRounds? rules settledOnly fuel m
      = some (associationRounds rules settledOnly fuel m) := by
  induction fuel with
  | zero => exact fun _ => rfl
  | succ fuel ih =>
    intro m
    unfold associationRounds? associationRounds
    split
    · rw [associationRound?_eq]
      exact ih _
    · rfl

theorem resolveAssociations?_eq (rules : NamingRules) (settledOnly : Bool) (m : Model) :
    resolveAssociations? rules settledOnly m = some (resolveAssociations rules settledOnly m) :=
  associationRounds?_eq rules settledOnly _ m

/-! ### Aliases of properties -/

def expandedAlias? (a : AliasProperty) (target : PropertyId) (name : Located String) :
    Option PropertyKind := do
  let reference ← (Reference.ofName name).resolve? target
  return .propertyAlias { a with property := some reference, only := [], exclude := [] }

def aliasStep? (m : Model) (rules : NamingRules) (p : Property) (a : AliasProperty)
    (cls : ClassId) :
    Option Step :=
  let candidates := namedCandidates m rules cls
  if isSettled m cls && a.property.isNone && candidates.all (fun x => x.2.isSome) then do
    let chosen ← (chosenProperties candidates p.location a).mapM fun x => expandedAlias? a x.1 x.2
    let problems := (unknownChoices candidates a).map (notFound m cls)
    match p.owner with
    | .returns _ =>
      if chosen.length == 1 then return { outcome := .expand chosen, problems }
      else
        return {
          outcome := .failed
          problems := problems ++ [{ problem := .severalReturned, location := p.location }] }
    | _ => return { outcome := .expand chosen, problems }
  -- otherwise the step is only planned or given up
  else some (aliasStep m rules p a cls)

def propertyStep? (m : Model) (rules : NamingRules) (p : Property) : Option Step :=
  match p.alias? with
  | none => some { outcome := .failed }
  | some a =>
    match a.cls.target with
    | none => some { outcome := .failed }
    | some cls => aliasStep? m rules p a cls

def setAliasTarget? (m : Model) (id target : PropertyId) : Option Model :=
  m.mapPropertiesM fun p =>
    match p.kind with
    | .propertyAlias a =>
      if p.id == id then do
        let property ← a.property.mapM (·.resolve? target)
        return { p with kind := .propertyAlias { a with property } }
      else some p
    | _ => some p

def applyResolution? (s : AliasState) (p : Property) (target : PropertyId) : Option AliasState :=
  if closesCycle s.model p.id target then some (s.giveUpCircular p)
  else do return { s with model := ← setAliasTarget? s.model p.id target }

def resolveStep? (s : AliasState) (x : Property × Step) : Option AliasState :=
  match x.2.outcome with
  | .resolve target => applyResolution? s x.1 target
  | _ => some s

def applySteps? (s : AliasState) (steps : List (Property × Step)) : Option AliasState := do
  let s ← steps.foldlM resolveStep? s
  return { s with model := applyExpansions s.model (expansionsOf steps) }

def aliasRound? (rules : NamingRules) (s : AliasState) (pending : List Property) :
    Option AliasState := do
  let steps ← pending.mapM fun p => do return (p, ← propertyStep? s.model rules p)
  let s := s.report (steps.flatMap fun x => x.2.problems)
  let s := steps.foldl (fun s x => if x.2.outcome == .failed then s.giveUp x.1 else s) s
  if steps.any fun x => isProgress x.2 then applySteps? s steps
  else return steps.foldl (fun s x => if x.2.outcome == .blocked then s.giveUpCircular x.1 else s) s

def aliasRounds? (rules : NamingRules) : Nat → AliasState → Option AliasState
  | 0, s => some s
  | fuel + 1, s => do
    let s := { s with model := ← resolveAssociations? rules true s.model }
    if (pendingAliases s).isEmpty then return s
    else aliasRounds? rules fuel (← aliasRound? rules s (pendingAliases s))

def resolveAliases? (rules : NamingRules) (m : Model) : Option AliasState :=
  aliasRounds? rules (m.properties.countP isOpenAlias + 1) { model := m }

theorem aliasStep?_eq (m : Model) (rules : NamingRules) (p : Property) (a : AliasProperty)
    (cls : ClassId) :
    aliasStep? m rules p a cls = some (aliasStep m rules p a cls) := by
  have hchosen : ((chosenProperties (namedCandidates m rules cls) p.location a).mapM fun x =>
        expandedAlias? a x.1 x.2)
      = some ((chosenProperties (namedCandidates m rules cls) p.location a).map fun x =>
        expandedAlias a x.1 x.2) :=
    mapM_eq_some_map fun _ _ => rfl
  unfold aliasStep?
  simp only [Bool.and_eq_true, Option.isNone_iff_eq_none]
  split
  next h =>
    obtain ⟨⟨hsettled, hchoice⟩, hnamed⟩ := h
    simp only [hchosen, Option.bind_eq_bind, Option.bind_some, aliasStep, hsettled, hchoice, hnamed,
      Bool.not_true, Bool.false_eq_true, if_false]
    cases p.owner with
    | returns e =>
      simp only []
      split <;> rfl
    | _ => rfl
  · rfl

theorem propertyStep?_eq (m : Model) (rules : NamingRules) (p : Property) :
    propertyStep? m rules p = some (propertyStep m rules p) := by
  unfold propertyStep? propertyStep
  cases p.alias? with
  | none => rfl
  | some a =>
    cases hC : a.cls.target with
    | none => simp only [hC]
    | some C =>
      simp only [hC]
      exact aliasStep?_eq m rules p a C

/-- Only the alias that is pointed has its number, and it is open. -/
theorem setAliasTarget?_eq (hm : m.Numbered) {p : Property} (hp : p ∈ m.properties) {t : PropertyId}
    (h : MayPoint rules m p t) : setAliasTarget? m p.id t = some (setAliasTarget m p.id t) := by
  refine Model.mapPropertiesM_eq fun q hq => ?_
  obtain ⟨a, r, hk, hr, hopen, -⟩ := h
  by_cases hid : q.id = p.id
  · obtain rfl := hm.property_inj hq hp hid
    simp only [hk, beq_self_eq_true, if_true]
    rw [optionMapM_eq_some_map fun x hx =>
      Reference.resolve?_eq (by rw [← Option.some.inj (hr.symm.trans hx), hopen]) t]
    rfl
  · cases q.kind <;> simp [hid]

theorem resolveStep?_eq {s : AliasState} {x : Property × Step} (hm : s.model.Numbered)
    (h : Awaits rules s.model x) : resolveStep? s x = some (resolveStep s x) := by
  unfold resolveStep? resolveStep
  cases ho : x.2.outcome with
  | resolve t =>
    simp only [applyResolution?, applyResolution]
    split
    · rfl
    · rw [setAliasTarget?_eq hm h.mem (h.resolve t ho)]
      rfl
  | _ => rfl

/-- Each alias of a round is pointed while it is still open: those before it are others. -/
theorem resolveSteps?_eq {s : AliasState} (hs : Sound rules true s.model)
    {steps : List (Property × Step)}
    (hsteps : ∀ x ∈ steps, Awaits rules s.model x) (hnodup : (steps.map (·.1.id)).Nodup) :
    steps.foldlM resolveStep? s = some (steps.foldl resolveStep s) := by
  refine foldlM_eq_some_foldl fun before x after he => ?_
  subst he
  rw [List.map_append, List.map_cons, List.nodup_append] at hnodup
  obtain ⟨hbefore, -, hapart⟩ := hnodup
  obtain ⟨hrun, hwait, -⟩ := run_resolveSteps before [x] s hs
    (fun y hy => hsteps y (List.mem_append_left _ hy))
    (fun y hy => List.mem_singleton.mp hy ▸ hsteps x (List.mem_append_right _ List.mem_cons_self))
      hbefore
    (fun y hy z hz _ _ he => hapart z.1.id (List.mem_map_of_mem hz) x.1.id List.mem_cons_self
      (List.mem_singleton.mp hy ▸ he.symm))
  exact resolveStep?_eq (Run.sound hrun hs).numbered (hwait x (List.mem_singleton_self x))

theorem aliasRound?_eq {s : AliasState} (hs : Sound rules true s.model) {pending : List Property}
    (hp : OpenAliases s.model pending) :
    aliasRound? rules s pending = some (aliasRound rules s pending) := by
  have hsteps : (pending.mapM fun p => do return (p, ← propertyStep? s.model rules p))
      = some (stepsOf rules s.model pending) :=
    mapM_eq_some_map fun p _ => by rw [propertyStep?_eq]; rfl
  obtain ⟨hrun, hmodel⟩ := run_afterFailures rules hp.mem hp.opened
  have happly : applySteps? (afterFailures rules s pending) (stepsOf rules s.model pending)
      = some (applySteps (afterFailures rules s pending) (stepsOf rules s.model pending)) := by
    have hawait : ∀ x ∈ stepsOf rules s.model pending,
        Awaits rules (afterFailures rules s pending).model x := by
      rw [hmodel]
      exact awaits_stepsOf rules hp.mem hp.opened
    unfold applySteps?
    rw [resolveSteps?_eq (Run.sound hrun hs) hawait (hp.nodup_steps rules), applySteps_eq]
    rfl
  unfold aliasRound?
  rw [hsteps, aliasRound_eq]
  refine Eq.trans ?_ (apply_ite some _ _ _).symm
  rw [← happly]
  rfl

theorem aliasRounds?_eq (fuel : Nat) : ∀ s : AliasState, Sound rules true s.model →
    aliasRounds? rules fuel s = some (aliasRounds rules fuel s) := by
  induction fuel with
  | zero => exact fun _ _ => rfl
  | succ fuel ih =>
    intro s hs
    have hassociated := hs.resolveAssociations
    rw [aliasRounds?, resolveAssociations?_eq, aliasRounds_succ]
    simp only [Option.bind_eq_bind, Option.bind_some, List.isEmpty_iff]
    generalize hs₁ : ({ s with model := resolveAssociations rules true s.model } : AliasState) = s₁
    have hsound : Sound rules true s₁.model := hs₁ ▸ hassociated
    split
    · rfl
    · have hp := openAliases_pending hsound.numbered
      rw [aliasRound?_eq hsound hp]
      exact ih _ (Run.sound (run_aliasRound rules hsound hp.mem hp.opened hp.nodup) hsound)

/-- **The rounds over the aliases of properties point each alias once.** -/
theorem resolveAliases?_eq (h : Sound rules true m) :
    resolveAliases? rules m = some (resolveAliases rules m) := aliasRounds?_eq _ _ h

/-! ### Properties that classes name -/

def resolveClassProperties? (find : String → Option PropertyId) (c : Class) : Option Class := do
  return { c with
    defaultProperty := ← c.defaultProperty.mapM (resolveBy? find)
    orderProperty := ← c.orderProperty.mapM (resolveBy? find)
    flagProperty := ← c.flagProperty.mapM (resolveBy? find)
    uniqueKeys := ← c.uniqueKeys.mapM fun key => key.mapM (resolveBy? find)
    values := ← c.values.mapM fun v => do
      return { v with fields := ← v.fields.mapM fun f => do
        return { f with property := ← resolveBy? find f.property } } }

def resolvePropertyReferences? (rules : NamingRules) (m : Model) : Option Model :=
  m.mapFilesM fun f => do
    return { f with classes := ← f.classes.mapM fun c =>
      resolveClassProperties? (m.findProperty rules c.id) c }

theorem resolveClassProperties?_eq (find : String → Option PropertyId) {c : Class}
    (h : ∀ r ∈ c.mentions, r.target = none) :
    resolveClassProperties? find c = some (resolveClassProperties find c) := by
  have hby : ∀ r ∈ c.mentions, resolveBy? find r = some (resolveBy find r) := fun r hr =>
    resolveBy?_eq find (h r hr)
  have hspecial : ∀ r, some r ∈ [c.defaultProperty, c.orderProperty, c.flagProperty] →
      resolveBy? find r = some (resolveBy find r) := fun r hr =>
    hby r (List.mem_append_left _ (List.mem_append_left _ (List.mem_filterMap.mpr ⟨_, hr, rfl⟩)))
  have hkeys : (c.uniqueKeys.mapM fun key => key.mapM (resolveBy? find))
      = some (c.uniqueKeys.map fun key => key.map (resolveBy find)) :=
    mapM_eq_some_map fun key hkey => mapM_eq_some_map fun r hr =>
      hby r (List.mem_append_left _ (List.mem_append_right _ (List.mem_flatten_of_mem hkey hr)))
  have hvalues : (c.values.mapM fun v => do
        return { v with fields := ← v.fields.mapM fun f => do
          return { f with property := ← resolveBy? find f.property } })
      = some (c.values.map fun v =>
        { v with fields := v.fields.map fun f =>
            { f with property := resolveBy find f.property } }) :=
    mapM_eq_some_map fun v hv => by
      rw [mapM_eq_some_map
        (g := fun f : ValueField => { f with property := resolveBy find f.property })
        fun f hf => by
          rw [hby f.property
            (List.mem_append_right _ (List.mem_flatMap.mpr ⟨v, hv, List.mem_map_of_mem hf⟩))]
          rfl]
      rfl
  unfold resolveClassProperties?
  rw [optionMapM_eq_some_map fun r hr => hspecial r (by simp [hr]),
    optionMapM_eq_some_map fun r hr => hspecial r (by simp [hr]),
    optionMapM_eq_some_map fun r hr => hspecial r (by simp [hr]), hkeys, hvalues]
  rfl

theorem resolvePropertyReferences?_eq (h : ∀ c ∈ m.classes, ∀ r ∈ c.mentions, r.target = none) :
    resolvePropertyReferences? rules m = some (resolvePropertyReferences rules m) :=
  Model.mapFilesM_eq fun f hf => by
    rw [mapM_eq_some_map fun c hc => resolveClassProperties?_eq (m.findProperty rules c.id)
      (h c (List.mem_flatMap.mpr ⟨f, hf, hc⟩))]
    rfl

/-! ### Linking -/

def linkProperties? (rules : NamingRules) (m : Model) : Option Linked := do
  let aliases ← resolveAliases? rules m
  let associated ← resolveAssociations? rules false aliases.model
  let complete ← resolvePropertyReferences? rules associated
  return {
    model := complete
    problems :=
      aliases.problems ++ associationProblems associated ++ propertyReferenceProblems complete
        ++ asDomainProblems complete }

end Linking

/-- Links a model, with the check that no reference is resolved that is already. -/
def Model.link? (m : Model) (rules : NamingRules) : Option Linked := do
  let names ← Linking.linkNames? m
  let properties ← Linking.linkProperties? rules names.model
  return {
    model := properties.model
    problems :=
      names.problems ++ properties.problems ++ Validation.problems properties.model rules
        ++ Linking.unusedProblems properties.model }

namespace Linking

variable {rules : NamingRules} {m : Model}

theorem linkProperties?_eq (h : m.AsLoaded) :
    linkProperties? rules (linkNames m).model
      = some (linkProperties rules (linkNames m).model) := by
  have hcomplete : resolvePropertyReferences? rules (associated rules m)
      = some (resolvePropertyReferences rules (associated rules m)) :=
    resolvePropertyReferences?_eq fun _ hc _ hr => mentions_associated h hc hr
  unfold linkProperties?
  rw [resolveAliases?_eq (sound_named rules h)]
  simp only [Option.bind_eq_bind, Option.bind_some, resolveAssociations?_eq]
  exact congrArg (Option.bind · _) hcomplete

end Linking

/-- **Linking models as they were loaded never resolves a reference twice.** -/
theorem Model.link?_eq {m : Model} (rules : NamingRules) (h : m.AsLoaded) :
    m.link? rules = some (m.link rules) := by
  unfold link?
  rw [Linking.linkNames?_eq h]
  simp only [Option.bind_eq_bind, Option.bind_some]
  rw [Linking.linkProperties?_eq h]
  rfl

namespace Store

/-- What a link makes of the drafts, with the check for references that are resolved already. -/
def linked? (s : Store) : Option Linked := do
  let linked ← s.draftModel.link? s.naming
  return { linked with problems := s.failures.map (fun x => failureProblem x.1 x.2)
    ++ linked.problems }

/-- **No link of a store ever resolves a reference that is resolved already**, however the store
came about. -/
theorem Reachable.resolves_once {s : Store} (h : s.Reachable) : s.linked? = some s.linked := by
  unfold linked?
  rw [Model.link?_eq s.naming h.drafted.asLoaded]
  rfl

/-- A store with a file that is used twice, and a property of a decorator that an association names
and a choice comes to. -/
def usedTwice : Store :=
  loadAll {} [("A", "module: M\n---\ndecorator:\n name: D\n properties:\n - composition: A\n   name: X\n"
      ++ "---\nclass:\n name: A\n decorators: [D]\n"),
    ("B", "module: M\nuses:\n - A\n - A\n---\nclass:\n name: B\n properties:\n"
      ++ " - association: A\n   property: X\n - alias: {class: A}")]

/-- All of its references are resolved, so that they could not be resolved again. -/
theorem resolves_once_in_usedTwice :
    usedTwice.linked? = some usedTwice.linked ∧
    usedTwice.linked.model.link? usedTwice.naming = none ∧
      ∀ x ∈ usedTwice.linked.model.properties.filterMap (·.kind.lookup?),
      x.2.target.isSome = true := by
  have hresolved : (usedTwice.linked.model.link? usedTwice.naming).isNone = true ∧
      (usedTwice.linked.model.properties.filterMap (·.kind.lookup?)).all (·.2.target.isSome)
        = true := by
    have hspelled : usedTwice = _ :=
      loadAll_eq_foldl
        (.cons (toList_append_eq String.toList_ofList String.toList_ofList)
          (.cons (toList_append_eq String.toList_ofList String.toList_ofList) .nil))
    rw [hspelled]
    decide +kernel
  have hreach : usedTwice.Reachable := reachable_loadAll {} _
  refine ⟨Reachable.resolves_once hreach, Option.isNone_iff_eq_none.mp hresolved.1, ?_⟩
  exact List.all_eq_true.mp hresolved.2

end Store

end EntityModel
