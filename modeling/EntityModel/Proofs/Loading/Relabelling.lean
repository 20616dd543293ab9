import EntityModel.Loading.File
import EntityModel.Proofs.Model.Relabelling

/-!
# Loading does not look at file ids

A file is read without ever asking which id it has: reading the same text under another id gives the
same file with the ids exchanged.  `Follows` says so of one way of reading, for any relabelling of
the events it is given; it is kept by running one after another, and every block is put together in
that way.  Since what is loaded points nowhere yet, the relabelling may as well drop all targets.
-/

namespace EntityModel

namespace Source

variable (ρ : Relabelling)

def Event.relabel (e : Event) : Event := { e with location := e.location.relabel ρ }

def LoadError.relabel (e : LoadError) : LoadError :=
  { e with location := e.location.map (·.relabel ρ) }

def Reader.relabel (r : Reader) : Reader :=
  { r with rest := r.rest.map (·.relabel ρ), ending := r.ending.relabel ρ }

def relabelResult {α : Type} (φ : α → α) :
    EStateM.Result LoadError Reader α → EStateM.Result LoadError Reader α
  | .ok a r => .ok (φ a) (r.relabel ρ)
  | .error e r => .error (e.relabel ρ) (r.relabel ρ)

/-- On relabelled events `y` reads what `x` reads, relabelled. -/
def Follows {α : Type} (φ : α → α) (x y : Read α) : Prop :=
  ∀ r : Reader, y (r.relabel ρ) = relabelResult ρ φ (x r)

namespace Follows

variable {ρ}

theorem pure {α : Type} {φ : α → α} {a b : α} (h : b = φ a) :
    Follows ρ φ (Pure.pure a) (Pure.pure b) := fun _ => by rw [h]; rfl

theorem bind {α β : Type} {φ : α → α} {ψ : β → β} {x y : Read α} {f g : α → Read β}
    (hx : Follows ρ φ x y) (hf : ∀ a, Follows ρ ψ (f a) (g (φ a))) :
    Follows ρ ψ (x >>= f) (y >>= g) := by
  intro r
  show EStateM.bind y g (r.relabel ρ) = relabelResult ρ ψ (EStateM.bind x f r)
  unfold EStateM.bind
  rw [hx r]
  cases x r with
  | ok a r' => exact hf a r'
  | error e r' => rfl

theorem fail {α : Type} {φ : α → α} {cause : LoadCause} {l l' : Location} (h : l' = l.relabel ρ) :
    Follows ρ φ (Read.fail cause l) (Read.fail cause l') := fun _ => by rw [h]; rfl

theorem require {α : Type} {φ : α → α} {value value' : Option α} (h : value' = value.map φ)
    (requirement : Requirement) (l : Location) :
    Follows ρ φ (Read.require value requirement l)
    (Read.require value' requirement (l.relabel ρ)) := by
  subst h
  cases value with
  | none => exact fail rfl
  | some a => exact pure rfl

theorem next : Follows ρ (Event.relabel ρ) Read.next Read.next := by
  intro r
  obtain ⟨file, rest, ending⟩ := r
  cases rest <;> rfl

theorem isNext_relabel (r : Reader) (kind : EventKind) :
    (r.relabel ρ).isNext kind = r.isNext kind := by
  obtain ⟨file, rest, ending⟩ := r
  cases rest <;> rfl

theorem isNext (kind : EventKind) : Follows ρ id (Read.isNext kind) (Read.isNext kind) := by
  intro r
  show EStateM.Result.ok ((r.relabel ρ).isNext kind) _ = EStateM.Result.ok (r.isNext kind) _
  rw [isNext_relabel]

theorem location : Follows ρ (Location.relabel ρ) Read.location Read.location := by
  intro r
  obtain ⟨file, rest, ending⟩ := r
  cases rest <;> rfl

theorem run_consumeIf (kind : EventKind) (r : Reader) :
    Read.consumeIf kind r
      = if r.isNext kind then .ok true { r with rest := r.rest.tail } else .ok false r := by
  show (if r.isNext kind then _ else _ : Read Bool) r = _
  split <;> rfl

theorem consumeIf (kind : EventKind) :
    Follows ρ id (Read.consumeIf kind) (Read.consumeIf kind) := by
  intro r
  rw [run_consumeIf, run_consumeIf, isNext_relabel]
  split
  · simp [relabelResult, Reader.relabel, List.map_tail]
  · rfl

theorem expect (kind : EventKind) :
    Follows ρ (Event.relabel ρ) (Read.expect kind) (Read.expect kind) := by
  refine next.bind fun e => ?_
  show Follows ρ _ (if e.kind.alike kind then _ else _) (if e.kind.alike kind then _ else _)
  split
  · exact pure rfl
  · exact fail rfl

/-! ### Scalars -/

theorem scalar : Follows ρ (Located.relabel ρ) Read.scalar Read.scalar := by
  refine next.bind fun e => ?_
  obtain ⟨kind, l⟩ := e
  cases kind with
  | scalar text => exact pure rfl
  | _ => exact fail rfl

theorem optionalScalar :
    Follows ρ (Option.map (Located.relabel ρ)) Read.optionalScalar Read.optionalScalar := by
  refine scalar.bind fun s => pure ?_
  rw [Located.relabel_value]
  split <;> rfl

theorem string : Follows ρ id Read.string Read.string := scalar.bind fun _ => pure rfl

theorem optionalString : Follows ρ id Read.optionalString Read.optionalString :=
  optionalScalar.bind fun s => pure (by cases s <;> rfl)

theorem bool : Follows ρ id Read.bool Read.bool := by
  refine scalar.bind fun s => ?_
  rw [Located.relabel_value]
  split
  · exact pure rfl
  · split
    · exact pure rfl
    · exact fail rfl

theorem number : Follows ρ id Read.number Read.number := by
  refine scalar.bind fun s => ?_
  rw [Located.relabel_value]
  split
  · exact pure rfl
  · exact fail rfl

/-! ### Collections -/

theorem entries {σ : Type} {φ : σ → σ} {f g : σ → Located String → Read σ}
    (hf : ∀ acc key, Follows ρ φ (f acc key) (g (φ acc) (key.relabel ρ))) (fuel : Nat) :
    ∀ acc, Follows ρ φ (Read.entries f fuel acc) (Read.entries g fuel (φ acc)) := by
  induction fuel with
  | zero => exact fun acc => pure rfl
  | succ fuel ih =>
    intro acc
    refine (consumeIf _).bind fun b => ?_
    cases b with
    | true => exact pure rfl
    | false => exact scalar.bind fun key => (hf acc key).bind ih

/-- A length of what is still to be read is not changed by a relabelling. -/
theorem withRest {α : Type} {φ : α → α} {f g : Nat → Read α} (h : ∀ n, Follows ρ φ (f n) (g n)) :
    Follows ρ φ (do f ((← get).rest.length + 1)) (do g ((← get).rest.length + 1)) := by
  intro r
  show g ((r.relabel ρ).rest.length + 1) (r.relabel ρ) = relabelResult ρ φ (f (r.rest.length + 1) r)
  have : (r.relabel ρ).rest.length = r.rest.length := List.length_map ..
  rw [this]
  exact h _ r

theorem remaining {σ : Type} {φ : σ → σ} {f g : σ → Located String → Read σ} {acc acc' : σ}
    (hf : ∀ acc key, Follows ρ φ (f acc key) (g (φ acc) (key.relabel ρ))) (ha : acc' = φ acc) :
    Follows ρ φ (Read.remaining f acc) (Read.remaining g acc') := by
  subst ha
  exact withRest fun n => entries hf n acc

theorem mapping {σ : Type} {φ : σ → σ} {f g : σ → Located String → Read σ} {acc acc' : σ}
    (hf : ∀ acc key, Follows ρ φ (f acc key) (g (φ acc) (key.relabel ρ))) (ha : acc' = φ acc) :
    Follows ρ φ (Read.mapping f acc) (Read.mapping g acc') :=
  (expect _).bind fun _ => remaining hf ha

theorem items {α : Type} {φ : α → α} {f g : Read α} (hf : Follows ρ φ f g) (fuel : Nat) :
    Follows ρ (List.map φ) (Read.items f fuel) (Read.items g fuel) := by
  induction fuel with
  | zero => exact pure rfl
  | succ fuel ih =>
    refine (consumeIf _).bind fun b => ?_
    cases b with
    | true => exact pure rfl
    | false => exact hf.bind fun item => ih.bind fun rest => pure rfl

theorem sequence {α : Type} {φ : α → α} {f g : Read α} (hf : Follows ρ φ f g) :
    Follows ρ (List.map φ) (Read.sequence f) (Read.sequence g) :=
  (expect _).bind fun _ => withRest fun n => items hf n

theorem scalarList : Follows ρ (List.map (Located.relabel ρ)) Read.scalarList Read.scalarList := by
  refine (isNext _).bind fun b => ?_
  cases b with
  | true => exact sequence scalar
  | false => exact optionalScalar.bind fun s => pure (by cases s <;> rfl)

theorem stringList : Follows ρ id Read.stringList Read.stringList :=
  scalarList.bind fun s => pure (by simp)

end Follows

end Source

namespace Loading

open Source

variable (ρ : Relabelling)

/-! ### What is read so far -/

def Header.relabel (h : Header) : Header :=
  { h with module := h.module.map (·.relabel ρ), uses := h.uses.map (·.relabel ρ) }

def DomainDraft.relabel (d : DomainDraft) : DomainDraft :=
  { d with
    name := d.name.map (·.relabel ρ)
    asDomains := d.asDomains.map fun (word, r) => (word, r.relabel ρ) }

def AliasDraft.relabel (d : AliasDraft) : AliasDraft where
  file := d.file.map (·.relabel ρ)
  classes := d.classes.map fun rs => rs.map (·.relabel ρ)
  endpoints := d.endpoints.map fun rs => rs.map (·.relabel ρ)

def PropertyDraft.relabel (d : PropertyDraft) : PropertyDraft where
  location := d.location.relabel ρ
  kind := d.kind.relabel ρ

def RegularDraft.relabel (d : RegularDraft) : RegularDraft :=
  { d with name := d.name.map (·.relabel ρ), domain := d.domain.map (·.relabel ρ) }

def CompositionDraft.relabel (d : CompositionDraft) : CompositionDraft :=
  { d with name := d.name.map (·.relabel ρ), domain := d.domain.map (·.relabel ρ) }

def AliasTarget.relabel (t : AliasTarget) : AliasTarget where
  cls := t.cls.map (·.relabel ρ)
  property := t.property.map (·.relabel ρ)
  only := t.only.map (·.relabel ρ)
  exclude := t.exclude.map (·.relabel ρ)

def PropertyAliasDraft.relabel (d : PropertyAliasDraft) : PropertyAliasDraft :=
  { d with name := d.name.map (·.relabel ρ), asDomain := d.asDomain.map (·.relabel ρ) }

def DecoratorDraft.relabel (d : DecoratorDraft) : DecoratorDraft :=
  { d with name := d.name.map (·.relabel ρ), properties := d.properties.map (·.relabel ρ) }

def ClassDraft.relabel (d : ClassDraft) : ClassDraft :=
  { d with
    name := d.name.map (·.relabel ρ)
    trigram := d.trigram.map (·.relabel ρ)
    parent := d.parent.map (·.relabel ρ)
    decorators := d.decorators.map (·.relabel ρ)
    properties := d.properties.map fun ps => ps.map (·.relabel ρ)
    uniqueKeys := d.uniqueKeys.map fun key => key.map (·.relabel ρ)
    values := d.values.map (·.relabel ρ)
    defaultProperty := d.defaultProperty.map (·.relabel ρ)
    orderProperty := d.orderProperty.map (·.relabel ρ)
    flagProperty := d.flagProperty.map (·.relabel ρ) }

def EndpointDraft.relabel (d : EndpointDraft) : EndpointDraft :=
  { d with
    name := d.name.map (·.relabel ρ)
    params := d.params.map (·.relabel ρ)
    returns := d.returns.map (·.relabel ρ) }

def Context.relabel (ctx : Context) : Context := { ctx with file := ρ.file ctx.file }

variable {ρ}

/-! ### Blocks -/

theorem follows_unknownKey {α : Type} {φ : α → α} {block : Block} {key : Located String} :
    Follows ρ φ (Read.unknownKey block key) (Read.unknownKey block (key.relabel ρ)) := .fail rfl

theorem relabel_ofName {α : Type} [Relabelled α] (name : Located String) :
    (Reference.ofName (name.relabel ρ) : Reference α) = (Reference.ofName name).relabel ρ := by
  cases h : ρ.keep <;> simp [Reference.ofName, Reference.relabel, h]

theorem relabel_references {α : Type} [Relabelled α] (names : List (Located String)) :
    (references (names.map (·.relabel ρ)) : List (Reference α))
      = (references names).map (·.relabel ρ) := by
  simp [references, relabel_ofName]

theorem ofName_comp_relabel {α : Type} [Relabelled α] :
    (Reference.ofName (α := α) ∘ fun name => name.relabel ρ)
      = (fun r => r.relabel ρ) ∘ Reference.ofName :=
  funext relabel_ofName

theorem follows_endpointOptions : Follows ρ id endpointOptions endpointOptions := by
  refine .mapping (fun o key => ?_) rfl
  simp only [Located.relabel_value]
  split
  · exact Follows.optionalString.bind fun _ => .pure rfl
  · exact Follows.optionalString.bind fun _ => .pure rfl
  · exact follows_unknownKey

theorem follows_fileOptions : Follows ρ id fileOptions fileOptions := by
  refine .mapping (fun o key => ?_) rfl
  simp only [Located.relabel_value]
  split
  · exact follows_endpointOptions
  · exact follows_unknownKey

theorem follows_headerSet (h : Header) (key : Located String) :
    Follows ρ (Header.relabel ρ) (h.set key) ((h.relabel ρ).set (key.relabel ρ)) := by
  simp only [Header.set, Located.relabel_value]
  split
  · exact Follows.optionalScalar.bind fun _ => .pure rfl
  · exact Follows.stringList.bind fun _ => .pure rfl
  · exact Follows.scalarList.bind fun _ => .pure rfl
  · exact follows_fileOptions.bind fun _ => .pure rfl
  · exact follows_unknownKey

theorem follows_header (location : Location) :
    Follows ρ (fun (h, module) => (h.relabel ρ, module)) (header location)
    (header (location.relabel ρ)) := by
  refine (Follows.mapping follows_headerSet rfl).bind fun h => ?_
  exact (Follows.require rfl _ _).bind fun module => .pure rfl

theorem follows_domainImplementation : Follows ρ id domainImplementation domainImplementation := by
  refine .mapping (fun o key => ?_) rfl
  simp only [Located.relabel_value]
  split
  · exact Follows.optionalString.bind fun _ => .pure rfl
  · exact Follows.stringList.bind fun _ => .pure rfl
  · exact Follows.stringList.bind fun _ => .pure rfl
  · exact follows_unknownKey

theorem relabel_put (m : OrderedMap DomainReference) (key : String) (r : DomainReference) :
    OrderedMap.put (m.map fun (word, r) => (word, r.relabel ρ)) key (r.relabel ρ)
      = (OrderedMap.put m key r).map fun (word, r) => (word, r.relabel ρ) := by
  unfold OrderedMap.put
  have hany : (m.map fun (word, r) => (word, r.relabel ρ)).any (·.1 == key)
      = m.any (·.1 == key) := by
    simp [List.any_map, Function.comp_def]
  rw [hany]
  split
  · rw [List.map_map, List.map_map]
    refine List.map_congr_left fun e _ => ?_
    simp only [Function.comp_apply]
    split <;> rfl
  · simp

theorem follows_domainSet (d : DomainDraft) (key : Located String) :
    Follows ρ (DomainDraft.relabel ρ) (d.set key) ((d.relabel ρ).set (key.relabel ρ)) := by
  simp only [DomainDraft.set, Located.relabel_value]
  split
  · exact Follows.optionalScalar.bind fun _ => .pure rfl
  · exact Follows.optionalString.bind fun _ => .pure rfl
  · exact Follows.number.bind fun _ => .pure rfl
  · exact Follows.number.bind fun _ => .pure rfl
  · exact Follows.bool.bind fun _ => .pure rfl
  · exact Follows.optionalString.bind fun _ => .pure rfl
  · exact Follows.bool.bind fun _ => .pure rfl
  · refine Follows.bind (φ := fun m => m.map fun (word, r) => (word, r.relabel ρ))
      (.mapping (fun m as => ?_) rfl) fun _ => .pure rfl
    refine Follows.scalar.bind fun s => .pure ?_
    rw [relabel_ofName]
    exact relabel_put m _ _
  · split
    · exact follows_domainImplementation.bind fun _ => .pure rfl
    · exact follows_unknownKey

theorem follows_domain (id : DomainId) (location : Location) :
    Follows ρ (Domain.relabel ρ) (domain id location)
    (domain (id.relabel ρ) (location.relabel ρ)) := by
  refine (Follows.mapping follows_domainSet rfl).bind fun d => ?_
  exact (Follows.require rfl _ _).bind fun name => .pure rfl

theorem follows_aliasSet (d : AliasDraft) (key : Located String) :
    Follows ρ (AliasDraft.relabel ρ) (d.set key) ((d.relabel ρ).set (key.relabel ρ)) := by
  simp only [AliasDraft.set, Located.relabel_value]
  split
  · exact Follows.optionalScalar.bind fun _ => .pure rfl
  · exact Follows.scalarList.bind fun _ => .pure (by simp [AliasDraft.relabel, relabel_references])
  · exact Follows.scalarList.bind fun _ => .pure (by simp [AliasDraft.relabel, relabel_references])
  · exact follows_unknownKey

theorem follows_fileAlias (id : AliasId) (location : Location) :
    Follows ρ (Alias.relabel ρ) (fileAlias id location)
    (fileAlias (id.relabel ρ) (location.relabel ρ)) := by
  refine (Follows.mapping follows_aliasSet rfl).bind fun d => ?_
  refine (Follows.require rfl _ _).bind fun file => .pure ?_
  simp [Alias.relabel, AliasDraft.relabel, relabel_ofName]

/-! ### Properties -/

theorem relabel_own (owner : PropertyOwner) (drafts : List PropertyDraft) :
    own (owner.relabel ρ) (drafts.map (·.relabel ρ)) = (own owner drafts).map (·.relabel ρ) := by
  refine List.ext_getElem? fun i => ?_
  simp only [own, List.getElem?_mapIdx, List.getElem?_map, Option.map_map]
  cases drafts[i]? <;> rfl

theorem follows_regularSet (d : RegularDraft) (key : Located String) :
    Follows ρ (RegularDraft.relabel ρ) (d.set key) ((d.relabel ρ).set (key.relabel ρ)) := by
  simp only [RegularDraft.set, Located.relabel_value]
  split
  · exact Follows.optionalScalar.bind fun _ => .pure rfl
  · exact Follows.optionalString.bind fun _ => .pure rfl
  · exact Follows.optionalString.bind fun _ => .pure rfl
  · exact Follows.bool.bind fun _ => .pure rfl
  · exact Follows.bool.bind fun _ => .pure rfl
  · exact Follows.optionalScalar.bind fun _ => .pure rfl
  · exact Follows.optionalString.bind fun _ => .pure rfl
  · exact Follows.bool.bind fun _ => .pure rfl
  · exact follows_unknownKey

theorem follows_regularFinish (d : RegularDraft) (location : Location) :
    Follows ρ (RegularProperty.relabel ρ) (d.finish location)
      ((d.relabel ρ).finish (location.relabel ρ)) := by
  refine (Follows.require rfl _ _).bind fun name => ?_
  refine (Follows.require rfl _ _).bind fun domain => .pure ?_
  simp [RegularProperty.relabel, RegularDraft.relabel, relabel_ofName]

theorem relabel_associationTo (target : Located String) :
    associationTo (target.relabel ρ) = (associationTo target).relabel ρ := by
  simp [associationTo, AssociationProperty.relabel, relabel_ofName]

theorem follows_setAssociation (p : AssociationProperty) (key : Located String) :
    Follows ρ (AssociationProperty.relabel ρ) (setAssociation p key)
      (setAssociation (p.relabel ρ) (key.relabel ρ)) := by
  simp only [setAssociation, Located.relabel_value]
  split
  · refine Follows.scalar.bind fun s => ?_
    simp only [Located.relabel_value]
    split
    · exact .pure rfl
    · exact .fail rfl
  · exact Follows.optionalString.bind fun _ => .pure rfl
  · exact Follows.optionalScalar.bind fun _ => .pure rfl
  · exact Follows.optionalString.bind fun _ => .pure rfl
  · exact Follows.optionalString.bind fun _ => .pure rfl
  · exact Follows.bool.bind fun _ => .pure rfl
  · exact Follows.bool.bind fun _ => .pure rfl
  · exact Follows.optionalString.bind fun _ => .pure rfl
  · exact Follows.bool.bind fun _ => .pure rfl
  · exact Follows.optionalScalar.bind fun _ => .pure rfl
  · exact Follows.optionalScalar.bind fun _ =>
      .pure (by simp [AssociationProperty.relabel, ofName_comp_relabel])
  · exact Follows.optionalString.bind fun _ => .pure rfl
  · exact follows_unknownKey

theorem follows_compositionSet (d : CompositionDraft) (key : Located String) :
    Follows ρ (CompositionDraft.relabel ρ) (d.set key) ((d.relabel ρ).set (key.relabel ρ)) := by
  simp only [CompositionDraft.set, Located.relabel_value]
  split
  · exact Follows.optionalScalar.bind fun _ => .pure rfl
  · exact Follows.optionalScalar.bind fun _ => .pure rfl
  · exact Follows.optionalString.bind fun _ => .pure rfl
  · exact Follows.optionalString.bind fun _ => .pure rfl
  · exact follows_unknownKey

theorem follows_compositionFinish (d : CompositionDraft) (target : Located String)
    (location : Location) :
    Follows ρ (CompositionProperty.relabel ρ) (d.finish target location)
      ((d.relabel ρ).finish (target.relabel ρ) (location.relabel ρ)) := by
  refine (Follows.require rfl _ _).bind fun name => .pure ?_
  simp [CompositionProperty.relabel, CompositionDraft.relabel, relabel_ofName,
    ofName_comp_relabel]

theorem follows_aliasTargetSet (t : AliasTarget) (key : Located String) :
    Follows ρ (AliasTarget.relabel ρ) (t.set key) ((t.relabel ρ).set (key.relabel ρ)) := by
  simp only [AliasTarget.set, Located.relabel_value]
  split
  · exact Follows.optionalScalar.bind fun _ => .pure rfl
  · exact Follows.optionalScalar.bind fun _ => .pure rfl
  · exact Follows.scalarList.bind fun _ => .pure rfl
  · exact Follows.scalarList.bind fun _ => .pure rfl
  · exact follows_unknownKey

theorem follows_affix : Follows ρ id affix affix := by
  refine Follows.optionalString.bind fun s => ?_
  simp only [id]
  split <;> exact .pure rfl

theorem follows_propertyAliasSet (d : PropertyAliasDraft) (key : Located String) :
    Follows ρ (PropertyAliasDraft.relabel ρ) (d.set key) ((d.relabel ρ).set (key.relabel ρ)) := by
  simp only [PropertyAliasDraft.set, Located.relabel_value]
  split
  · exact Follows.optionalScalar.bind fun _ => .pure rfl
  · exact follows_affix.bind fun _ => .pure rfl
  · exact follows_affix.bind fun _ => .pure rfl
  · exact Follows.optionalString.bind fun _ => .pure rfl
  · exact Follows.optionalString.bind fun _ => .pure rfl
  · exact Follows.bool.bind fun _ => .pure rfl
  · exact Follows.optionalString.bind fun _ => .pure rfl
  · exact Follows.bool.bind fun _ => .pure rfl
  · exact Follows.optionalScalar.bind fun _ => .pure rfl
  · exact follows_unknownKey

theorem follows_propertyAliasFinish (d : PropertyAliasDraft) (t : AliasTarget)
    (location : Location) :
    Follows ρ (AliasProperty.relabel ρ) (d.finish t location)
      ((d.relabel ρ).finish (t.relabel ρ) (location.relabel ρ)) := by
  refine (Follows.require rfl _ _).bind fun cls => ?_
  have hif : ((t.relabel ρ).property.isSome
      && !((t.relabel ρ).only.isEmpty && (t.relabel ρ).exclude.isEmpty))
      = (t.property.isSome && !(t.only.isEmpty && t.exclude.isEmpty)) := by
    simp [AliasTarget.relabel]
  rw [hif]
  split
  · exact .fail rfl
  · refine .pure ?_
    simp [AliasProperty.relabel, PropertyAliasDraft.relabel, AliasTarget.relabel, relabel_ofName,
      ofName_comp_relabel]

theorem follows_property : Follows ρ (PropertyDraft.relabel ρ) property property := by
  refine (Follows.expect _).bind fun start => Follows.scalar.bind fun first => ?_
  simp only [Located.relabel_value]
  have hkind : ∀ kind, Follows ρ (PropertyDraft.relabel ρ) (pure ⟨start.location, kind⟩)
      (pure ⟨start.location.relabel ρ, kind.relabel ρ⟩) := fun kind => .pure rfl
  split
  · refine Follows.scalar.bind fun target => ?_
    exact (Follows.remaining follows_setAssociation (relabel_associationTo target)).bind fun _ =>
      hkind _
  · refine Follows.scalar.bind fun target => ?_
    refine (Follows.remaining follows_compositionSet rfl).bind fun d => ?_
    exact (follows_compositionFinish d target _).bind fun _ => hkind _
  · refine (Follows.mapping follows_aliasTargetSet rfl).bind fun target => ?_
    refine (Follows.remaining follows_propertyAliasSet rfl).bind fun d => ?_
    exact (follows_propertyAliasFinish d target _).bind fun _ => hkind _
  · refine (follows_regularSet {} first).bind fun d => ?_
    refine (Follows.remaining follows_regularSet rfl).bind fun d => ?_
    exact (follows_regularFinish d _).bind fun _ => hkind _

theorem follows_propertyList :
    Follows ρ (List.map (PropertyDraft.relabel ρ)) propertyList propertyList :=
  .sequence follows_property

/-! ### Decorators, classes and endpoints -/

theorem follows_decoratorImplementation :
    Follows ρ id decoratorImplementation decoratorImplementation := by
  refine .mapping (fun o key => ?_) rfl
  simp only [Located.relabel_value]
  split
  · exact Follows.optionalString.bind fun _ => .pure rfl
  · exact Follows.stringList.bind fun _ => .pure rfl
  · exact Follows.stringList.bind fun _ => .pure rfl
  · exact follows_unknownKey

theorem follows_decoratorSet (d : DecoratorDraft) (key : Located String) :
    Follows ρ (DecoratorDraft.relabel ρ) (d.set key) ((d.relabel ρ).set (key.relabel ρ)) := by
  simp only [DecoratorDraft.set, Located.relabel_value]
  split
  · exact Follows.optionalScalar.bind fun _ => .pure rfl
  · exact Follows.string.bind fun _ => .pure rfl
  · exact follows_propertyList.bind fun _ => .pure rfl
  · split
    · exact follows_decoratorImplementation.bind fun _ => .pure rfl
    · exact follows_unknownKey

theorem follows_decorator (ctx : Context) (id : DecoratorId) (location : Location) :
    Follows ρ (Decorator.relabel ρ) (decorator ctx id location)
      (decorator (ctx.relabel ρ) (id.relabel ρ) (location.relabel ρ)) := by
  refine (Follows.mapping follows_decoratorSet rfl).bind fun d => ?_
  refine (Follows.require rfl _ _).bind fun name => .pure ?_
  simp [Decorator.relabel, DecoratorDraft.relabel, Context.relabel, ← relabel_own,
    PropertyOwner.relabel]

theorem follows_decoratorUsage :
    Follows ρ (DecoratorUsage.relabel ρ) decoratorUsage decoratorUsage := by
  refine (Follows.isNext _).bind fun b => ?_
  cases b with
  | true =>
    refine Follows.location.bind fun l => ?_
    refine Follows.bind (φ := fun usage => (usage.1.map (·.relabel ρ), usage.2))
      (.mapping (fun usage key => ?_) rfl) fun usage => ?_
    · simp only [Located.relabel_value]
      split
      · exact Follows.optionalScalar.bind fun _ => .pure rfl
      · exact Follows.stringList.bind fun _ => .pure rfl
      · exact follows_unknownKey
    · refine (Follows.require rfl _ _).bind fun name => .pure ?_
      simp [DecoratorUsage.relabel, relabel_ofName]
  | false =>
    exact Follows.scalar.bind fun name =>
      .pure (by simp [DecoratorUsage.relabel, relabel_ofName])

theorem follows_valueFields :
    Follows ρ (List.map (ValueField.relabel ρ)) valueFields valueFields := by
  refine .mapping (fun fields field => Follows.optionalScalar.bind fun value => ?_) rfl
  cases value with
  | none => exact .pure rfl
  | some value => exact .pure (by simp [ValueField.relabel, relabel_ofName])

theorem follows_referenceValues :
    Follows ρ (List.map (ReferenceValue.relabel ρ)) referenceValues referenceValues :=
  .mapping (fun values name => follows_valueFields.bind fun _ =>
    .pure (by simp [ReferenceValue.relabel])) rfl

theorem follows_optionalReference {α : Type} [Relabelled α] :
    Follows ρ (Option.map (Reference.relabel ρ)) (optionalReference (α := α)) optionalReference :=
  Follows.optionalScalar.bind fun name => .pure (by cases name <;> simp [relabel_ofName])

theorem follows_classSet (d : ClassDraft) (key : Located String) :
    Follows ρ (ClassDraft.relabel ρ) (d.set key) ((d.relabel ρ).set (key.relabel ρ)) := by
  simp only [ClassDraft.set, Located.relabel_value]
  split
  · exact Follows.optionalScalar.bind fun _ => .pure rfl
  · exact Follows.optionalScalar.bind fun _ => .pure rfl
  · exact Follows.optionalString.bind fun _ => .pure rfl
  · exact Follows.optionalString.bind fun _ => .pure rfl
  · exact Follows.optionalString.bind fun _ => .pure rfl
  · exact Follows.string.bind fun _ => .pure rfl
  · exact follows_optionalReference.bind fun _ => .pure rfl
  · exact Follows.bool.bind fun _ => .pure rfl
  · exact Follows.bool.bind fun _ => .pure rfl
  · exact (Follows.sequence follows_decoratorUsage).bind fun _ => .pure rfl
  · exact follows_propertyList.bind fun _ => .pure rfl
  · refine Follows.bind (φ := List.map fun key => key.map (Reference.relabel ρ))
      (.sequence (Follows.scalarList.bind fun names => .pure (relabel_references names)))
        fun groups => ?_
    exact .pure (by simp [ClassDraft.relabel])
  · have hif : (d.relabel ρ).properties.isNone = d.properties.isNone := by simp [ClassDraft.relabel]
    rw [hif]
    split
    · exact .bind (φ := id) (.fail rfl) fun _ => follows_referenceValues.bind fun _ => .pure rfl
    · exact follows_referenceValues.bind fun _ => .pure rfl
  · exact follows_optionalReference.bind fun _ => .pure rfl
  · exact follows_optionalReference.bind fun _ => .pure rfl
  · exact follows_optionalReference.bind fun _ => .pure rfl
  · exact follows_unknownKey

theorem declaredName?_relabel (k : PropertyKind) :
    (k.relabel ρ).declaredName? = k.declaredName?.map (·.relabel ρ) := by cases k <;> rfl

theorem isRequiredField_relabel (k : PropertyKind) :
    (k.relabel ρ).isRequiredField = k.isRequiredField := by cases k <;> rfl

theorem requiredFields_relabel (ps : List PropertyDraft) :
    requiredFields (ps.map (·.relabel ρ)) = requiredFields ps := by
  have htest : (fun p : PropertyDraft => p.kind.isRequiredField) ∘ PropertyDraft.relabel ρ
      = fun p => p.kind.isRequiredField := funext fun p => isRequiredField_relabel p.kind
  have hname : (fun p : PropertyDraft => p.kind.declaredName?.map Located.value) ∘
        PropertyDraft.relabel ρ
      = fun p => p.kind.declaredName?.map Located.value := by
    funext p
    show (p.kind.relabel ρ).declaredName?.map Located.value = _
    rw [declaredName?_relabel, Option.map_map]
    rfl
  unfold requiredFields
  rw [List.filter_map, List.filterMap_map, htest, hname]

theorem getByName?_relabel (v : ReferenceValue) (name : String) :
    (v.relabel ρ).getByName? name = v.getByName? name := by
  simp [ReferenceValue.getByName?, List.find?_map, Function.comp_def, Reference.text]

theorem follows_forM {α : Type} {φ : α → α} {f g : α → Read Unit}
    (h : ∀ a, Follows ρ id (f a) (g (φ a))) (as : List α) :
    Follows ρ id (as.forM f) ((as.map φ).forM g) := by
  induction as with
  | nil => exact .pure rfl
  | cons a as ih =>
    exact (h a).bind fun _ => ih

theorem follows_checkValues (cls : String) (ps : List PropertyDraft)
    (values : List ReferenceValue) :
    Follows ρ id (checkValues cls ps values)
      (checkValues cls (ps.map (·.relabel ρ)) (values.map (·.relabel ρ))) := by
  unfold checkValues
  rw [requiredFields_relabel]
  refine follows_forM (fun value => ?_) values
  have hfields := follows_forM (ρ := ρ) (φ := id)
    (f := fun field => do
      if (value.getByName? field).isNone then
        Read.fail (.valueWithoutField value.name.value cls field) value.name.location)
    (g := fun field => do
      if ((value.relabel ρ).getByName? field).isNone then
        Read.fail (.valueWithoutField (value.relabel ρ).name.value cls field)
          (value.relabel ρ).name.location)
    (fun field => by
      simp only [getByName?_relabel, id]
      split
      · exact .fail rfl
      · exact .pure rfl) (requiredFields ps)
  rwa [List.map_id] at hfields

theorem follows_cls (ctx : Context) (id : ClassId) (location : Location) :
    Follows ρ (Class.relabel ρ) (cls ctx id location)
      (cls (ctx.relabel ρ) (id.relabel ρ) (location.relabel ρ)) := by
  refine (Follows.mapping follows_classSet rfl).bind fun d => ?_
  refine (Follows.require rfl _ _).bind fun name => ?_
  have hproperties : (d.relabel ρ).properties.getD []
      = (d.properties.getD []).map (·.relabel ρ) := by
    cases h : d.properties <;> simp [ClassDraft.relabel, h]
  simp only [hproperties]
  refine (follows_checkValues _ _ _).bind fun _ => .pure ?_
  simp [Class.relabel, ClassDraft.relabel, Context.relabel, ← relabel_own, PropertyOwner.relabel]

theorem follows_endpointSet (d : EndpointDraft) (key : Located String) :
    Follows ρ (EndpointDraft.relabel ρ) (d.set key) ((d.relabel ρ).set (key.relabel ρ)) := by
  simp only [EndpointDraft.set, Located.relabel_value]
  split
  · exact Follows.optionalScalar.bind fun _ => .pure rfl
  · refine Follows.scalar.bind fun s => ?_
    simp only [Located.relabel_value]
    split
    · exact .pure rfl
    · exact .fail rfl
  · exact Follows.string.bind fun _ => .pure rfl
  · exact Follows.string.bind fun _ => .pure rfl
  · exact follows_propertyList.bind fun _ => .pure rfl
  · exact follows_property.bind fun _ => .pure rfl
  · exact Follows.bool.bind fun _ => .pure rfl
  · exact follows_unknownKey

theorem follows_endpoint (ctx : Context) (ident : EndpointId) (location : Location) :
    Follows ρ (Endpoint.relabel ρ) (endpoint ctx ident location)
      (endpoint (ctx.relabel ρ) (ident.relabel ρ) (location.relabel ρ)) := by
  refine (Follows.mapping follows_endpointSet rfl).bind fun d => ?_
  refine (Follows.require rfl _ _).bind fun name => ?_
  refine (Follows.require (φ := id) (by simp [EndpointDraft.relabel]) _ _).bind fun method =>
    .pure ?_
  have hparams : own (.params (ident.relabel ρ)) (d.relabel ρ).params
      = (own (.params ident) d.params).map (·.relabel ρ) := relabel_own (.params ident) d.params
  have hreturns : own (.returns (ident.relabel ρ)) (d.relabel ρ).returns.toList
      = (own (.returns ident) d.returns.toList).map (·.relabel ρ) := by
    rw [← relabel_own]
    cases h : d.returns <;> simp [EndpointDraft.relabel, h, PropertyOwner.relabel]
  simp only [hparams, hreturns]
  simp [Endpoint.relabel, EndpointDraft.relabel, Context.relabel]

/-! ### Files -/

theorem follows_entityEnd (f : ModelFile) : Follows ρ (ModelFile.relabel ρ)
    (do if ← Read.consumeIf .mappingEnd then return f
        Read.fail .severalEntities (← Read.location))
    (do if ← Read.consumeIf .mappingEnd then return f.relabel ρ
        Read.fail .severalEntities (← Read.location)) := by
  refine (Follows.consumeIf _).bind fun b => ?_
  cases b with
  | true => exact .pure rfl
  | false => exact Follows.location.bind fun _ => .fail rfl

theorem follows_entity (ctx : Context) (f : ModelFile) :
    Follows ρ (ModelFile.relabel ρ) (entity ctx f) (entity (ctx.relabel ρ) (f.relabel ρ)) := by
  refine (Follows.expect _).bind fun _ => Follows.scalar.bind fun kind => ?_
  simp only [Located.relabel_value, ModelFile.relabel_domains, ModelFile.relabel_decorators,
    ModelFile.relabel_classes, ModelFile.relabel_endpoints, ModelFile.relabel_aliases,
    List.length_map]
  split
  · refine (follows_domain ⟨ctx.file, f.domains.length⟩ kind.location).bind fun d => ?_
    have := follows_entityEnd (ρ := ρ) { f with domains := f.domains ++ [d] }
    simpa [ModelFile.relabel] using this
  · refine (follows_decorator ctx ⟨ctx.file, f.decorators.length⟩ kind.location).bind fun d => ?_
    have := follows_entityEnd (ρ := ρ) { f with decorators := f.decorators ++ [d] }
    simpa [ModelFile.relabel] using this
  · refine (follows_cls ctx ⟨ctx.file, f.classes.length⟩ kind.location).bind fun c => ?_
    have := follows_entityEnd (ρ := ρ) { f with classes := f.classes ++ [c] }
    simpa [ModelFile.relabel] using this
  · refine (follows_endpoint ctx ⟨ctx.file, f.endpoints.length⟩ kind.location).bind fun e => ?_
    have := follows_entityEnd (ρ := ρ) { f with endpoints := f.endpoints ++ [e] }
    simpa [ModelFile.relabel] using this
  · refine (follows_fileAlias ⟨ctx.file, f.aliases.length⟩ kind.location).bind fun a => ?_
    have := follows_entityEnd (ρ := ρ) { f with aliases := f.aliases ++ [a] }
    simpa [ModelFile.relabel] using this
  · exact .bind (φ := ModelFile.relabel ρ) (.fail rfl) follows_entityEnd

theorem follows_entities (ctx : Context) (fuel : Nat) : ∀ f : ModelFile,
    Follows ρ (ModelFile.relabel ρ) (entities ctx fuel f)
    (entities (ctx.relabel ρ) fuel (f.relabel ρ)) := by
  induction fuel with
  | zero => exact fun f => .pure rfl
  | succ fuel ih =>
    intro f
    refine (Follows.consumeIf _).bind fun b => ?_
    cases b with
    | true => exact (follows_entity ctx f).bind fun f => (Follows.expect _).bind fun _ => ih f
    | false => exact .pure rfl

theorem follows_file (id : FileId) (name app : String) (naming : NamingRules) :
    Follows ρ (Option.map (ModelFile.relabel ρ)) (file id name app naming)
      (file (ρ.file id) name app naming) := by
  refine (Follows.expect _).bind fun _ => (Follows.consumeIf _).bind fun b => ?_
  cases b with
  | true => exact .pure rfl
  | false =>
    refine (Follows.expect _).bind fun start => (follows_header _).bind fun (h, modulePath) => ?_
    refine (Follows.expect _).bind fun _ => ?_
    let f : ModelFile :=
      { id, name, ns := ⟨app, modulePath⟩, tags := h.tags, uses := references h.uses,
        endpointOptions := h.options }
    have hf : f.relabel ρ = { f with id := ρ.file id, uses := references (h.relabel ρ).uses } := by
      simp [f, ModelFile.relabel, Header.relabel, relabel_references]
    refine Follows.withRest (f := fun n => entities ⟨id, ⟨app, modulePath⟩, naming⟩ n f >>= fun f =>
        Read.expect .streamEnd >>= fun _ => pure (some f))
      (g := fun n => entities ⟨ρ.file id, ⟨app, modulePath⟩, naming⟩ n
          { f with id := ρ.file id, uses := references (h.relabel ρ).uses } >>= fun f =>
        Read.expect .streamEnd >>= fun _ => pure (some f)) fun n => ?_
    rw [← hf]
    exact (follows_entities ⟨id, ⟨app, modulePath⟩, naming⟩ n f).bind fun f =>
      (Follows.expect _).bind fun _ => .pure rfl

end Loading

/-! ### The events of a text -/

namespace Source

variable {ρ : Relabelling}

mutual

theorem Node.events_relabel (file : FileId) (line : Nat) : ∀ n : Node,
    n.events ⟨ρ.file file, line⟩ = (n.events ⟨file, line⟩).map (·.relabel ρ)
  | .scalar s => by simp [Node.events]; rfl
  | .mapping start stop entries => by
    simp only [Node.events, List.map_cons, List.map_append,
      Node.entryEvents_relabel file line entries]
    rfl
  | .sequence start stop items => by
    simp only [Node.events, List.map_cons, List.map_append, Node.itemEvents_relabel file line items]
    rfl

theorem Node.entryEvents_relabel (file : FileId) (line : Nat) : ∀ entries : List (Scalar × Node),
    Node.entryEvents ⟨ρ.file file, line⟩ entries
      = (Node.entryEvents ⟨file, line⟩ entries).map (·.relabel ρ)
  | [] => rfl
  | (key, value) :: rest => by
    simp only [Node.entryEvents, List.map_cons, List.map_append,
      Node.events_relabel file line value, Node.entryEvents_relabel file line rest]
    rfl

theorem Node.itemEvents_relabel (file : FileId) (line : Nat) : ∀ items : List Node,
    Node.itemEvents ⟨ρ.file file, line⟩ items
      = (Node.itemEvents ⟨file, line⟩ items).map (·.relabel ρ)
  | [] => rfl
  | item :: rest => by
    simp only [Node.itemEvents, List.map_append, Node.events_relabel file line item,
      Node.itemEvents_relabel file line rest]

end

theorem Document.events_relabel (file : FileId) (d : Document) :
    d.events (ρ.file file) = (d.events file).map (List.map (Event.relabel ρ)) := by
  unfold Document.events
  cases Node.ofText d.text with
  | error e => rfl
  | ok node =>
    show Except.ok _ = Except.ok _
    have hlast : ∀ start : Location,
        (((node.events ⟨file, d.firstLine⟩).map (Event.relabel ρ)).getLast?.map Event.location).getD
            (start.relabel ρ)
          = (((node.events ⟨file, d.firstLine⟩).getLast?.map Event.location).getD start).relabel
            ρ := by
      intro start
      rw [List.getLast?_map]
      cases (node.events ⟨file, d.firstLine⟩).getLast? <;> rfl
    have hpoint : Location.point (ρ.file file) d.firstLine 0
        = (Location.point file d.firstLine 0).relabel ρ := rfl
    rw [Node.events_relabel, hpoint, hlast]
    simp [Event.relabel]

/-- What is read of a file, with the ids exchanged. -/
def relabelOutcome {α : Type} (ρ : Relabelling) (φ : α → α) :
    Except LoadError α → Except LoadError α
  | .ok a => .ok (φ a)
  | .error e => .error (e.relabel ρ)

theorem relabelOutcome_bind {α β : Type} {φ : α → α} {ψ : β → β} {x : Except LoadError α}
    {f g : α → Except LoadError β} (h : ∀ a, g (φ a) = relabelOutcome ρ ψ (f a)) :
    relabelOutcome ρ φ x >>= g = relabelOutcome ρ ψ (x >>= f) := by
  cases x with
  | ok a => exact h a
  | error e => rfl

theorem mapM_relabel {α β : Type} {φ : β → β} {f g : α → Except LoadError β}
    (h : ∀ a, g a = relabelOutcome ρ φ (f a)) (as : List α) :
    as.mapM g = relabelOutcome ρ (List.map φ) (as.mapM f) := by
  induction as with
  | nil => rfl
  | cons a as ih =>
    rw [List.mapM_cons, List.mapM_cons, h, ih]
    refine relabelOutcome_bind fun b => ?_
    exact relabelOutcome_bind fun bs => rfl

theorem splitError_relabel (file : FileId) (name : String) (fault : SplitFault) :
    splitError (ρ.file file) name fault = (splitError file name fault).relabel ρ := by
  cases fault <;> rfl

theorem events_relabel (file : FileId) (name source : String) :
    events (ρ.file file) name source
      = relabelOutcome ρ (List.map (Event.relabel ρ)) (events file name source) := by
  have hsplit : (Document.split source.toList).mapError (splitError (ρ.file file) name)
      = relabelOutcome ρ id ((Document.split source.toList).mapError (splitError file name)) := by
    cases Document.split source.toList with
    | ok ds => rfl
    | error e => exact congrArg Except.error (splitError_relabel file name e)
  unfold events eventsOf
  rw [hsplit]
  refine relabelOutcome_bind fun ds => ?_
  rw [id, mapM_relabel (φ := List.map (Event.relabel ρ)) (f := fun d : Document =>
    (d.events file).mapError fun fault =>
      (⟨.invalidDocument fault, name, some (.point file d.firstLine 0)⟩ : LoadError))]
  · refine relabelOutcome_bind fun bodies => congrArg Except.ok ?_
    simp only [List.map_cons, List.map_append, List.map_flatten, List.map_nil]
    rfl
  · intro d
    rw [Document.events_relabel]
    cases d.events file <;> rfl

theorem events_ne_nil {file : FileId} {name source : String} {es : List Event}
    (h : events file name source = .ok es) : es ≠ [] := by
  unfold events eventsOf at h
  simp only [bind, Except.bind] at h
  split at h
  · exact absurd h (by simp)
  · split at h
    · exact absurd h (by simp)
    · rw [← Except.ok.inj h]
      exact List.cons_ne_nil _ _

theorem Reader.ofEvents_relabel {es : List Event} (h : es ≠ []) (name : String) :
    Reader.ofEvents name (es.map (Event.relabel ρ)) = (Reader.ofEvents name es).relabel ρ := by
  simp only [Reader.ofEvents, Reader.relabel, List.getLast?_map, List.getLast?_eq_some_getLast h]
  rfl

end Source

/-- **A text read under another id gives the same file, the ids exchanged.** -/
theorem ModelFile.load_relabel (ρ : Relabelling) (id : FileId) (name source app : String)
    (naming : NamingRules) :
    ModelFile.load (ρ.file id) name source app naming
      = Source.relabelOutcome ρ (Option.map (ModelFile.relabel ρ))
          (ModelFile.load id name source app naming) := by
  unfold ModelFile.load
  rw [Source.events_relabel]
  cases hevents : Source.events id name source with
  | error e => rfl
  | ok es =>
    have hfollow := Loading.follows_file (ρ := ρ) id name app naming (.ofEvents name es)
    rw [← Source.Reader.ofEvents_relabel (Source.events_ne_nil hevents)] at hfollow
    simp only [ofEvents, Source.relabelOutcome, bind, Except.bind, EStateM.run, hfollow]
    cases Loading.file id name app naming (.ofEvents name es) <;> rfl

end EntityModel
