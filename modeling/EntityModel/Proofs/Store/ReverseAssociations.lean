import EntityModel.Model.Reverse
import EntityModel.Proofs.Source.Making
import EntityModel.Proofs.Store.Diagnosed

/-!
# Reverse associations in a linked store

What a class sees of the associations that point to it is read off the classes of the model with the
properties that stand on them, one after the other (`reverseProperties_eq`).  Each association of
these that is seen from the class gives one reverse association, at the class that it stands on even
where a decorator brings it there, and this is all that the class sees (`Reachable.reverse_exact`).
Seen from the other side once more, a cardinality is what it was.
-/

namespace EntityModel

@[simp] theorem Cardinality.opposite_opposite (c : Cardinality) : c.opposite.opposite = c := by
  cases c <;> rfl

theorem association?_eq_some_iff {p : Property} {a : AssociationProperty} :
    p.association? = some a ↔ p.kind = .association a := by
  unfold Property.association?
  cases p.kind <;> simp

namespace Model

/-- The classes of the model, each with one property after the other that stands on it, own or of a
decorator. -/
def occurrences (m : Model) : List (Class × Property) :=
  m.classes.flatMap fun c => (m.classProperties c.id).map fun p => (c, p)

/-- The class stands for a table, and reference classes are asked for if it is one. -/
structure HasReverse (m : Model) (options : ReverseOptions) (target : Class) : Prop where
  concrete : target.isAbstract = false
  keyed : m.primaryKey target.id ≠ []
  included : target.reference = true → options.includeReferenceClasses = true

/-- The property on the source is an association that the target sees from its side. -/
structure SeenFrom (m : Model) (options : ReverseOptions) (target source : Class) (p : Property)
    (a : AssociationProperty) : Prop where
  kind : p.kind = .association a
  pointed : a.association.target = some target.id
  directed : a.cardinality ≠ .oneToOne
  keyed : a.cardinality = .manyToOne ∨ ∃ key, m.primaryKey source.id = [key]
  module : options.onlyInSameRootModule = true → source.ns.rootModule = target.ns.rootModule

variable {m : Model} {options : ReverseOptions} {target source : Class}

theorem mem_occurrences {source : Class} {p : Property} :
    (source, p) ∈ m.occurrences ↔ source ∈ m.classes ∧ p ∈ m.classProperties source.id := by
  simp only [occurrences, List.mem_flatMap, List.mem_map, Prod.mk.injEq]
  constructor
  · rintro ⟨c, hc, p, hp, rfl, rfl⟩
    exact ⟨hc, hp⟩
  · rintro ⟨hc, hp⟩
    exact ⟨source, hc, p, hp, rfl, rfl⟩

theorem isSome_singlePrimaryKey_iff {id : ClassId} :
    (m.singlePrimaryKey id).isSome = true ↔ ∃ key, m.primaryKey id = [key] := by
  rw [Option.isSome_iff_exists]
  exact exists_congr fun _ => singlePrimaryKey_iff

def mirrored (target source : Class) (p : Property) (a : AssociationProperty) :
    ReverseAssociation where
  owner := target.id
  reverseOf := p.id
  association := source.id
  cardinality := a.cardinality.opposite
  role := a.role
  name := (if a.cardinality.opposite.isToMany then source.pluralName else source.name.value)
    ++ a.role.getD ""
  location := p.location

/-- What the target sees of a property that stands on a class, modules taken into account. -/
def seen? (m : Model) (options : ReverseOptions) (target : Class) (x : Class × Property) :
    Option ReverseAssociation :=
  if !options.onlyInSameRootModule || x.1.ns.rootModule == target.ns.rootModule then
    m.reverseOf? target.id x.1 x.2
  else none

theorem seen?_eq_some_iff {p : Property} {r : ReverseAssociation} :
    m.seen? options target (source, p) = some r
    ↔ ∃ a, m.SeenFrom options target source p a ∧ r = mirrored target source p a := by
  unfold seen? reverseOf?
  constructor
  · intro h
    split at h
    next hmodule =>
      obtain ⟨a, ha, h⟩ := Option.bind_eq_some_iff.mp h
      split at h
      next => cases h
      next hpointed =>
        simp only [Bool.or_eq_true, not_or, bne_iff_ne, ne_eq, not_not, beq_iff_eq] at hpointed
        split at h
        next => cases h
        next hkeyed =>
          obtain rfl := Option.some.inj h
          refine ⟨a, ⟨association?_eq_some_iff.mp ha, hpointed.1, hpointed.2, ?_, ?_⟩, rfl⟩
          · by_cases hmany : a.cardinality = .manyToOne
            · exact Or.inl hmany
            · refine Or.inr (isSome_singlePrimaryKey_iff.mp ?_)
              simpa [hmany, ← Option.isSome_iff_ne_none] using hkeyed
          · intro honly
            simpa [honly] using hmodule
    next => cases h
  · rintro ⟨a, ⟨hkind, hpointed, hdirected, hkeyed, hmodule⟩, rfl⟩
    have hhere : (!options.onlyInSameRootModule || source.ns.rootModule == target.ns.rootModule)
      = true := by
      cases honly : options.onlyInSameRootModule with
      | false => rfl
      | true => simp [hmodule honly]
    have hkey : ¬ a.cardinality = .manyToOne → ¬ m.singlePrimaryKey source.id = none := fun hmany =>
      Option.isSome_iff_ne_none.mp (isSome_singlePrimaryKey_iff.mpr (hkeyed.resolve_left hmany))
    rw [if_pos hhere, association?_eq_some_iff.mpr hkind]
    simpa [hpointed, hdirected, mirrored] using hkey

theorem hasReverse_iff (htarget : m.cls? target.id = some target) : m.HasReverse options target
    ↔ ((target.reference && !options.includeReferenceClasses) || !m.isPersistent target.id)
      = false := by
  have hpersistent : m.isPersistent target.id = true ↔ target.isAbstract = false ∧
      m.primaryKey target.id ≠ [] := by
    simp [isPersistent, htarget]
  have hincluded : (target.reference && !options.includeReferenceClasses) = false
      ↔ (target.reference = true → options.includeReferenceClasses = true) := by
    cases target.reference <;> simp
  rw [Bool.or_eq_false_iff, Bool.not_eq_false', hincluded, hpersistent]
  exact ⟨fun h => ⟨h.included, h.concrete, h.keyed⟩, fun h => ⟨h.2.1, h.2.2, h.1⟩⟩

/-- **A class sees what it does of one occurrence after the other**, if it has reverse associations
at all. -/
theorem reverseProperties_eq (htarget : m.cls? target.id = some target)
    (h : m.HasReverse options target) :
    m.reverseProperties target.id options = m.occurrences.filterMap (m.seen? options target) := by
  have hclasses : ∀ cs : List Class,
      (cs.filter fun c => !options.onlyInSameRootModule || c.ns.rootModule
        == target.ns.rootModule).flatMap
          (fun c => (m.classProperties c.id).filterMap (m.reverseOf? target.id c))
        = (cs.flatMap fun c => (m.classProperties c.id).map fun p => (c, p)).filterMap
          (m.seen? options target) := by
    intro cs
    induction cs with
    | nil => rfl
    | cons c cs ih =>
      rw [List.flatMap_cons, List.filterMap_append, ← ih, List.filter_cons, List.filterMap_map]
      split
      next hmodule =>
        rw [List.flatMap_cons]
        refine congrArg (· ++ _) (List.filterMap_congr fun p _ => ?_)
        rw [Function.comp_apply, seen?, if_pos hmodule]
      next hmodule =>
        have hnone : (m.classProperties c.id).filterMap (m.seen? options target ∘ fun p => (c, p))
            = [] :=
          List.filterMap_eq_nil_iff.mpr fun p _ => by
            rw [Function.comp_apply, seen?, if_neg hmodule]
        rw [hnone, List.nil_append]
  rw [reverseProperties, htarget]
  simp only [(hasReverse_iff htarget).mp h, Bool.false_eq_true, if_false]
  exact hclasses m.classes

theorem reverseProperties_eq_nil (htarget : m.cls? target.id = some target)
    (h : ¬ m.HasReverse options target) :
    m.reverseProperties target.id options = [] := by
  rw [hasReverse_iff htarget, Bool.not_eq_false] at h
  rw [reverseProperties, htarget]
  exact if_pos h

end Model

namespace Store

open Linking

variable {s : Store}

/-- **Reverse associations are the other side of associations, and nothing else.**  A class that is
not known, that stands for no table, or that is a reference class while these are left out, sees
nothing.  Any other class sees one association after the other, in the order of the classes and of
the properties on each, and each occurrence once: that of a decorator too, on every class that it
stands on.  What is seen leads back to the class and the association, and seen from the other side
once more it has the cardinality of the association. -/
theorem Reachable.reverse_exact (h : s.Reachable) (id : ClassId) (options : ReverseOptions) :
    (s.link.1.model.cls? id = none → s.link.1.model.reverseProperties id options = []) ∧
    ∀ target, s.link.1.model.cls? id = some target →
      (¬ s.link.1.model.HasReverse options target →
        s.link.1.model.reverseProperties id options = []) ∧
      (s.link.1.model.HasReverse options target → ∃ places : List Nat, places.Pairwise (· < ·) ∧
        (∀ i, i ∈ places ↔ ∃ o p a, s.link.1.model.occurrences[i]? = some (o, p) ∧
          s.link.1.model.SeenFrom options target o p a) ∧
        List.Forall₂ (fun i r => ∃ o p a, s.link.1.model.occurrences[i]? = some (o, p) ∧
            s.link.1.model.SeenFrom options target o p a ∧ r = Model.mirrored target o p a ∧
            r.owner = id ∧
            s.link.1.model.cls? r.association = some o ∧
            s.link.1.model.property? r.reverseOf = some p ∧
            r.cardinality.opposite = a.cardinality)
          places (s.link.1.model.reverseProperties id options)) := by
  have hm := h.numbered_link
  generalize s.link.1.model = m at hm
  refine ⟨fun hnone => by rw [Model.reverseProperties, hnone], fun target htarget => ?_⟩
  obtain ⟨-, rfl⟩ := hm.cls?_iff.mp htarget
  refine ⟨Model.reverseProperties_eq_nil htarget, fun hreverse => ?_⟩
  obtain ⟨places, hsorted, hmem, hplaces⟩ :=
    exists_places_filterMap (m.seen? options target) m.occurrences
  refine ⟨places, hsorted, fun i => ?_, ?_⟩
  · rw [hmem]
    constructor
    · rintro ⟨⟨o, p⟩, r, hi, hr⟩
      obtain ⟨a, ha, -⟩ := Model.seen?_eq_some_iff.mp hr
      exact ⟨o, p, a, hi, ha⟩
    · rintro ⟨o, p, a, hi, ha⟩
      exact ⟨(o, p), _, hi, Model.seen?_eq_some_iff.mpr ⟨a, ha, rfl⟩⟩
  · rw [Model.reverseProperties_eq htarget hreverse]
    refine hplaces.imp fun i r ⟨⟨o, p⟩, hi, hr⟩ => ?_
    obtain ⟨a, ha, rfl⟩ := Model.seen?_eq_some_iff.mp hr
    obtain ⟨ho, hp⟩ := Model.mem_occurrences.mp (List.mem_of_getElem? hi)
    exact ⟨o, p, a, hi, ha, rfl, rfl, hm.cls?_iff.mpr ⟨ho, rfl⟩,
      hm.property?_of_mem (hm.mem_of_classProperties hp), a.cardinality.opposite_opposite⟩

/-- A store with a class that the association of a decorator points to, and another class with the
decorator. -/
def owned : Store :=
  loadAll {} [("A", "module: M\n---\ndecorator:\n name: O\n properties:\n - association: C\n"
    ++ "---\nclass:\n name: C\n properties:\n - name: I\n   domain: D\n   primaryKey: true\n"
    ++ "---\nclass:\n name: K\n decorators: [O]")]

/-- There the first class sees one association, at the other class. -/
theorem reverse_exact_in_owned :
    owned.Reachable ∧ ∃ target, owned.link.1.model.cls? ⟨⟨0⟩, 0⟩ = some target ∧
      owned.link.1.model.HasReverse {} target ∧
      (owned.link.1.model.reverseProperties ⟨⟨0⟩, 0⟩ {}).map
        (fun r => (r.name, r.association.index, r.cardinality))
        = [("Ks", 1, .oneToMany)] ∧
      ∃ places : List Nat, places.length = 1 ∧ ∀ i, i ∈ places ↔ ∃ o p a,
        owned.link.1.model.occurrences[i]? = some (o, p) ∧
        owned.link.1.model.SeenFrom {} target o p a := by
  have hreach : owned.Reachable := reachable_loadAll {} _
  have hrun : (owned.link.1.model.reverseProperties ⟨⟨0⟩, 0⟩ {}).map
      (fun r => (r.name, r.association.index, r.cardinality)) = [("Ks", 1, .oneToMany)] := by
    have hspelled : owned = _ :=
      loadAll_eq_foldl
        (.cons (toList_append_eq (toList_append_eq String.toList_ofList String.toList_ofList)
          String.toList_ofList) .nil)
    rw [hspelled]
    decide +kernel
  have hnonempty : owned.link.1.model.reverseProperties ⟨⟨0⟩, 0⟩ {} ≠ [] :=
    fun hnil => by simp [hnil] at hrun
  obtain ⟨hunknown, hknown⟩ := Reachable.reverse_exact hreach ⟨⟨0⟩, 0⟩ {}
  obtain ⟨target, htarget⟩ := Option.ne_none_iff_exists'.mp (mt hunknown hnonempty)
  obtain ⟨hnothing, hplaces⟩ := hknown target htarget
  have hreverse := not_not.mp (mt hnothing hnonempty)
  obtain ⟨places, -, hmem, hall⟩ := hplaces hreverse
  have hlength := congrArg List.length hrun
  rw [List.length_map, ← hall.length_eq] at hlength
  exact ⟨hreach, target, htarget, hreverse, hrun, places, hlength, hmem⟩

end Store

end EntityModel
