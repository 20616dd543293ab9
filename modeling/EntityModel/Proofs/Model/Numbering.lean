import EntityModel.Model.Query
import Mathlib.Data.List.Nodup

/-!
# Numbered models

In a model as it is loaded every declaration carries the id of its place, and every property the id
of its owner and of its place in the owner's list.  `Model.Numbered` says so, and under it looking
something up by its id and finding it in the model are the same:

    m.cls? id = some c ↔ c ∈ m.classes ∧ c.id = id

and likewise for the other kinds.  `Model.owned` lists the property lists of a model with their
owners, so that what concerns every list is said once.
-/

namespace EntityModel

/-- Declarations of one kind carry the ids of their places in the file. -/
def NumberedBy {k : Kind} {α : Type} (ident : α → Id k) (file : FileId) (as : List α) : Prop :=
  ∀ (i : Nat) (a : α), as[i]? = some a → ident a = ⟨file, i⟩

theorem NumberedBy.file {k : Kind} {α : Type} {ident : α → Id k} {file : FileId} {as : List α}
    (h : NumberedBy ident file as) {a : α} (ha : a ∈ as) : (ident a).file = file := by
  obtain ⟨i, hi⟩ := List.mem_iff_getElem?.mp ha
  rw [h i a hi]

/-- The properties of an owner carry the ids of their places. -/
def Positional (owner : PropertyOwner) (ps : List Property) : Prop :=
  ∀ (i : Nat) (p : Property), ps[i]? = some p → p.id = ⟨owner, i⟩

theorem Positional.owner_eq {o : PropertyOwner} {ps : List Property} (h : Positional o ps)
    {p : Property} (hp : p ∈ ps) : p.id.owner = o := by
  obtain ⟨i, hi⟩ := List.mem_iff_getElem?.mp hp
  rw [h i p hi]

theorem Positional.getElem? {o : PropertyOwner} {ps : List Property} (h : Positional o ps)
    {p : Property} (hp : p ∈ ps) : ps[p.id.index]? = some p := by
  obtain ⟨i, hi⟩ := List.mem_iff_getElem?.mp hp
  rw [h i p hi]
  exact hi

/-- Replacing the properties one for one, ids kept, leaves them at their places. -/
theorem Positional.map {o : PropertyOwner} {ps : List Property} (h : Positional o ps)
    {g : Property → Property} (hg : ∀ p, (g p).id = p.id) : Positional o (ps.map g) := by
  intro i p hp
  rw [List.getElem?_map, Option.map_eq_some_iff] at hp
  obtain ⟨q, hq, rfl⟩ := hp
  rw [hg, h i q hq]

namespace Model

/-- The property lists of a model, each with its owner, in model order; what an endpoint returns is
a list of at most one. -/
def owned (m : Model) : List (PropertyOwner × List Property) :=
  m.classes.map (fun c => (.cls c.id, c.properties))
    ++ m.decorators.map (fun d => (.decorator d.id, d.properties))
    ++ m.endpoints.flatMap fun e => [(.params e.id, e.params), (.returns e.id, e.returns.toList)]

theorem properties_eq_owned (m : Model) : m.properties = m.owned.flatMap Prod.snd := by
  have he : Endpoint.properties = fun e => e.params ++ e.returns.toList := rfl
  simp [properties, owned, List.flatMap_append, List.flatMap_map, List.flatMap_assoc, he]

/-- Every declaration and every property carries the id of its place. -/
structure Numbered (m : Model) : Prop where
  files : (m.files.map (·.id)).Nodup
  domains : ∀ f ∈ m.files, NumberedBy Domain.id f.id f.domains
  decorators : ∀ f ∈ m.files, NumberedBy Decorator.id f.id f.decorators
  classes : ∀ f ∈ m.files, NumberedBy Class.id f.id f.classes
  endpoints : ∀ f ∈ m.files, NumberedBy Endpoint.id f.id f.endpoints
  properties : ∀ o ps, (o, ps) ∈ m.owned → Positional o ps

variable {m : Model}

/-! ### Files and declarations -/

theorem mem_of_file? {id : FileId} {f : ModelFile} (h : m.file? id = some f) :
    f ∈ m.files ∧ f.id = id := by
  refine ⟨List.mem_of_find?_eq_some h, ?_⟩
  simpa using List.find?_some h

theorem file?_of_mem (h : (m.files.map (·.id)).Nodup) {f : ModelFile} (hf : f ∈ m.files) :
    m.file? f.id = some f := by
  cases hx : m.file? f.id with
  | none => exact absurd (List.find?_eq_none.mp hx f hf) (by simp)
  | some x =>
    obtain ⟨hm, hid⟩ := mem_of_file? hx
    rw [List.inj_on_of_nodup_map h hm hf hid]

theorem declared_iff {k : Kind} {α : Type} {decls : ModelFile → List α} {ident : α → Id k}
    (h : (m.files.map (·.id)).Nodup) (hn : ∀ f ∈ m.files, NumberedBy ident f.id (decls f))
    {id : Id k} {a : α} :
    ((m.file? id.file).bind fun f => (decls f)[id.index]?) = some a
      ↔ a ∈ m.files.flatMap decls ∧ ident a = id := by
  rw [Option.bind_eq_some_iff, List.mem_flatMap]
  constructor
  · rintro ⟨f, hf, ha⟩
    obtain ⟨hm, hid⟩ := mem_of_file? hf
    exact ⟨⟨f, hm, List.mem_of_getElem? ha⟩, by rw [hn f hm _ a ha, hid]⟩
  · rintro ⟨⟨f, hm, ha⟩, rfl⟩
    obtain ⟨i, hi⟩ := List.mem_iff_getElem?.mp ha
    have he := hn f hm i a hi
    exact ⟨f, by rw [he]; exact file?_of_mem h hm, by rw [he]; exact hi⟩

theorem Numbered.cls?_iff (h : m.Numbered) {id : ClassId} {c : Class} :
    m.cls? id = some c ↔ c ∈ m.classes ∧ c.id = id := declared_iff h.files h.classes

theorem Numbered.decorator?_iff (h : m.Numbered) {id : DecoratorId} {d : Decorator} :
    m.decorator? id = some d ↔ d ∈ m.decorators ∧ d.id = id := declared_iff h.files h.decorators

theorem Numbered.endpoint?_iff (h : m.Numbered) {id : EndpointId} {e : Endpoint} :
    m.endpoint? id = some e ↔ e ∈ m.endpoints ∧ e.id = id := declared_iff h.files h.endpoints

theorem Numbered.domain?_iff (h : m.Numbered) {id : DomainId} {d : Domain} :
    m.domain? id = some d ↔ d ∈ m.domains ∧ d.id = id := declared_iff h.files h.domains

/-! ### Properties -/

theorem Numbered.ownedBy?_iff (h : m.Numbered) {o : PropertyOwner} {ps : List Property} :
    m.ownedBy? o = some ps ↔ (o, ps) ∈ m.owned := by
  cases o with
  | cls id => simp [ownedBy?, owned, h.cls?_iff]; grind
  | decorator id => simp [ownedBy?, owned, h.decorator?_iff]; grind
  | params id => simp [ownedBy?, owned, h.endpoint?_iff]; grind
  | returns id => simp [ownedBy?, owned, h.endpoint?_iff]; grind

theorem mem_properties_iff {p : Property} :
    p ∈ m.properties ↔ ∃ o ps, (o, ps) ∈ m.owned ∧ p ∈ ps := by
  rw [properties_eq_owned, List.mem_flatMap]
  exact ⟨fun ⟨⟨o, ps⟩, h⟩ => ⟨o, ps, h⟩, fun ⟨o, ps, h⟩ => ⟨(o, ps), h⟩⟩

theorem property?_eq (m : Model) {id : PropertyId} (h : ∀ e, id.owner ≠ .returns e) :
    m.property? id = (m.ownedBy? id.owner).bind fun ps => ps[id.index]? := by
  obtain ⟨o, i⟩ := id
  cases o with
  | returns e => exact absurd rfl (h e)
  | _ => rfl

theorem property?_returns (m : Model) (e : EndpointId) (i : Nat) :
    m.property? ⟨.returns e, i⟩ = (m.ownedBy? (.returns e)).bind List.head? := by
  simp only [property?, ownedBy?, Option.bind_map]
  congr 1
  funext e
  cases h : e.returns <;> simp [h]

theorem Numbered.property?_of_mem (h : m.Numbered) {p : Property} (hp : p ∈ m.properties) :
    m.property? p.id = some p := by
  obtain ⟨o, ps, ho, hps⟩ := mem_properties_iff.mp hp
  have hpos := h.properties o ps ho
  have hown := hpos.owner_eq hps
  by_cases hr : ∃ e, p.id.owner = .returns e
  · obtain ⟨e, he⟩ := hr
    obtain rfl : o = .returns e := hown ▸ he
    have hid : p.id = ⟨.returns e, p.id.index⟩ := by rw [← he]
    rw [hid, property?_returns, h.ownedBy?_iff.mpr ho, Option.bind_some]
    -- a list of what an endpoint returns holds nothing behind its head
    simp only [owned, List.mem_append, List.mem_map, List.mem_flatMap] at ho
    obtain ⟨e', _, hm⟩ : ∃ e' ∈ m.endpoints, ps = e'.returns.toList := by grind
    subst hm
    cases hret : e'.returns with
    | none => simp [hret] at hps
    | some q => simp [hret] at hps ⊢; exact hps.symm
  · rw [property?_eq m (fun e he => hr ⟨e, he⟩), hown, h.ownedBy?_iff.mpr ho]
    exact hpos.getElem? hps

theorem mem_of_property? (h : m.Numbered) {id : PropertyId} {p : Property}
    (hp : m.property? id = some p) : p ∈ m.properties := by
  obtain ⟨o, i⟩ := id
  have key : ∃ ps, m.ownedBy? o = some ps ∧ p ∈ ps := by
    cases o with
    | returns e =>
      rw [property?_returns, Option.bind_eq_some_iff] at hp
      obtain ⟨ps, hps, hh⟩ := hp
      exact ⟨ps, hps, List.mem_of_mem_head? hh⟩
    | _ =>
      rw [property?_eq m (by simp), Option.bind_eq_some_iff] at hp
      obtain ⟨ps, hps, hh⟩ := hp
      exact ⟨ps, hps, List.mem_of_getElem? hh⟩
  obtain ⟨ps, hps, hin⟩ := key
  exact mem_properties_iff.mpr ⟨o, ps, h.ownedBy?_iff.mp hps, hin⟩

theorem Numbered.property_inj (h : m.Numbered) {p q : Property} (hp : p ∈ m.properties)
    (hq : q ∈ m.properties) (he : p.id = q.id) : p = q := by
  have := h.property?_of_mem hp
  rw [he, h.property?_of_mem hq] at this
  exact (Option.some.inj this).symm

/-! ### No id twice -/

theorem nodup_numberedBy {k : Kind} {α : Type} {ident : α → Id k} {file : FileId} {as : List α}
    (h : NumberedBy ident file as) : (as.map ident).Nodup := by
  refine List.nodup_iff_getElem?_ne_getElem?.mpr fun i j hij hj he => ?_
  rw [List.length_map] at hj
  have hi : i < as.length := by omega
  simp only [List.getElem?_map, List.getElem?_eq_getElem hi, List.getElem?_eq_getElem hj,
    Option.map_some, Option.some.injEq] at he
  rw [h i _ (List.getElem?_eq_getElem hi), h j _ (List.getElem?_eq_getElem hj)] at he
  exact absurd (Id.mk.inj he).2 (by omega)

theorem nodup_positional {o : PropertyOwner} {ps : List Property} (h : Positional o ps) :
    (ps.map (·.id)).Nodup := by
  refine List.nodup_iff_getElem?_ne_getElem?.mpr fun i j hij hj he => ?_
  rw [List.length_map] at hj
  have hi : i < ps.length := by omega
  simp only [List.getElem?_map, List.getElem?_eq_getElem hi, List.getElem?_eq_getElem hj,
    Option.map_some, Option.some.injEq] at he
  rw [h i _ (List.getElem?_eq_getElem hi), h j _ (List.getElem?_eq_getElem hj)] at he
  exact absurd (PropertyId.mk.inj he).2 (by omega)

/-- Declarations of one kind have different ids, over all files. -/
theorem nodup_declared {k : Kind} {α : Type} {decls : ModelFile → List α} {ident : α → Id k}
    (h : (m.files.map (·.id)).Nodup) (hn : ∀ f ∈ m.files, NumberedBy ident f.id (decls f)) :
    ((m.files.flatMap decls).map ident).Nodup := by
  rw [List.map_flatMap, List.nodup_flatMap]
  refine ⟨fun f hf => nodup_numberedBy (hn f hf), ?_⟩
  refine (List.pairwise_map.mp h).imp_of_mem fun hf hg hne => List.disjoint_left.mpr ?_
  rintro id hid hid'
  obtain ⟨a, ha, rfl⟩ := List.mem_map.mp hid
  obtain ⟨b, hb, he⟩ := List.mem_map.mp hid'
  obtain ⟨i, hi⟩ := List.mem_iff_getElem?.mp ha
  obtain ⟨j, hj⟩ := List.mem_iff_getElem?.mp hb
  rw [hn _ hf i a hi, hn _ hg j b hj] at he
  exact hne (Id.mk.inj he).1.symm

theorem Numbered.nodup_owners (h : m.Numbered) : (m.owned.map Prod.fst).Nodup := by
  have hcls : (m.classes.map Class.id).Nodup := nodup_declared h.files h.classes
  have hdec : (m.decorators.map Decorator.id).Nodup := nodup_declared h.files h.decorators
  have hend : (m.endpoints.map Endpoint.id).Nodup := nodup_declared h.files h.endpoints
  have hparts : (m.endpoints.flatMap fun e =>
      [PropertyOwner.params e.id, .returns e.id]).Nodup := by
    rw [List.nodup_flatMap]
    refine ⟨fun e _ => by simp, ?_⟩
    refine (List.pairwise_map.mp hend).imp fun hne => List.disjoint_left.mpr ?_
    simp [hne]
  have heq : m.owned.map Prod.fst = (m.classes.map Class.id).map PropertyOwner.cls
      ++ (m.decorators.map Decorator.id).map PropertyOwner.decorator
      ++ m.endpoints.flatMap fun e => [PropertyOwner.params e.id, .returns e.id] := by
    simp [owned, List.map_flatMap, Function.comp_def]
  rw [heq, List.nodup_append, List.nodup_append]
  refine ⟨⟨hcls.map fun _ _ => PropertyOwner.cls.inj,
    hdec.map fun _ _ => PropertyOwner.decorator.inj, ?_⟩, hparts, ?_⟩
  · simp
  · simp
    grind

/-- **No two properties of a model have one id.** -/
theorem Numbered.nodup_ids (h : m.Numbered) : (m.properties.map (·.id)).Nodup := by
  rw [properties_eq_owned, List.map_flatMap, List.nodup_flatMap]
  refine ⟨fun ⟨o, ps⟩ ho => nodup_positional (h.properties o ps ho), ?_⟩
  refine (List.pairwise_map.mp h.nodup_owners).imp_of_mem fun ho ho' hne =>
    List.disjoint_left.mpr ?_
  rintro id hid hid'
  obtain ⟨p, hp, rfl⟩ := List.mem_map.mp hid
  obtain ⟨q, hq, he⟩ := List.mem_map.mp hid'
  have hown := (h.properties _ _ ho).owner_eq hp
  rw [← he, (h.properties _ _ ho').owner_eq hq] at hown
  exact hne hown.symm

end Model

end EntityModel
