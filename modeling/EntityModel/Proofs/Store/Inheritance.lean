import EntityModel.Proofs.Linking.ReportKinds
import EntityModel.Proofs.Linking.Outlines
import EntityModel.Proofs.Model.Ancestry
import EntityModel.Proofs.Store.Diagnosed

/-!
# Inheritance in a linked store

Circular inheritance is reported once for each class of the linked store that follows itself over
some number of parents, and for no other class: one that only leads into a circle is not on it.
Whichever way its parents go, the ancestors of a class are the longest chain of parents without
repetition, and it inherits just their properties (`Reachable.inheritance_exact`).

The search for circles looks at the model linked by name.  Nothing that it reads changes afterwards
(`inheritanceCycles_link`).
-/

namespace EntityModel

open Relation

namespace Linking

variable {rules : NamingRules} {m : Model}

def circularInheritance (c : Class) (parent : ClassReference) : Diagnostic :=
  { problem := .inheritsFromItself c.name.value, location := parent.location }

/-! ### From names to the end -/

theorem inheritsFromItself_skeleton (m : Model) :
    m.skeleton.inheritsFromItself = m.inheritsFromItself := by
  funext id
  simp only [Model.inheritsFromItself, Model.parent?_skeleton, Model.classes_skeleton,
    List.length_map]

theorem inheritanceCycles_skeleton (m : Model) :
    inheritanceCycles m.skeleton = inheritanceCycles m := by
  rw [inheritanceCycles, Model.classes_skeleton, List.filterMap_map, inheritsFromItself_skeleton]
  rfl

/-- **The circles found among names are those of the linked model.** -/
theorem inheritanceCycles_link (rules : NamingRules) (h : m.AsLoaded) :
    inheritanceCycles (namedModel m) = inheritanceCycles (m.link rules).model := by
  rw [← inheritanceCycles_skeleton (namedModel m), ← skeleton_link rules h,
    inheritanceCycles_skeleton]

/-! ### One for each class -/

theorem exists_parent_of_inheritsFromItself (hm : m.Numbered) {c : Class} (hc : c ∈ m.classes)
    (h : m.inheritsFromItself c.id = true) : ∃ parent, c.parent = some parent := by
  obtain ⟨b, hb, -⟩ := TransGen.head'_iff.mp (hm.inheritsFromItself_iff.mp h)
  have hfound : m.cls? c.id = some c := hm.cls?_iff.mpr ⟨hc, rfl⟩
  unfold Model.IsParent Model.parent? at hb
  cases hparent : c.parent with
  | none => simp [hfound, hparent] at hb
  | some parent => exact ⟨parent, rfl⟩

/-- What a list makes of its elements, against those of which it makes anything. -/
theorem forall₂_filterMap_filter {α β : Type} {R : β → α → Prop} {g : α → Option β}
    {P : α → Bool} {l : List α}
    (hsome : ∀ a ∈ l, P a = true → ∃ b, g a = some b ∧ R b a)
    (hnone : ∀ a ∈ l, P a = false → g a = none) :
    List.Forall₂ R (l.filterMap g) (l.filter P) := by
  induction l with
  | nil => exact .nil
  | cons a rest ih =>
    have ih := ih (fun b hb => hsome b (List.mem_cons_of_mem _ hb)) fun b hb =>
      hnone b (List.mem_cons_of_mem _ hb)
    rw [List.filterMap_cons, List.filter_cons]
    cases hP : P a with
    | true =>
      obtain ⟨b, hb, hR⟩ := hsome a List.mem_cons_self hP
      rw [hb, if_pos rfl]
      exact .cons hR ih
    | false =>
      rw [hnone a List.mem_cons_self hP, if_neg (by simp)]
      exact ih

open Classical in
/-- **There is one report for each class that follows itself**, and no other. -/
theorem forall₂_inheritanceCycles (hm : m.Numbered) :
    List.Forall₂ (fun d c => ∃ parent, c.parent = some parent ∧ d = circularInheritance c parent)
      (inheritanceCycles m) (m.classes.filter fun c => TransGen m.IsParent c.id c.id) := by
  unfold inheritanceCycles
  refine forall₂_filterMap_filter (fun c hc hP => ?_) fun c hc hP => ?_
  · have hcircular := hm.inheritsFromItself_iff.mpr (of_decide_eq_true hP)
    obtain ⟨parent, hparent⟩ := exists_parent_of_inheritsFromItself hm hc hcircular
    refine ⟨circularInheritance c parent, ?_, parent, hparent, rfl⟩
    simp [hparent, hcircular, circularInheritance]
  · have hnot := mt hm.inheritsFromItself_iff.mp (of_decide_eq_false hP)
    cases hparent : c.parent with
    | none => rfl
    | some parent => simp [hnot]

end Linking

namespace Store

open Linking

variable {s : Store}

open Classical in
/-- **Circular inheritance is reported once for each class that follows itself over some number of
parents, and for no other**; and whichever way the parents of a class go, its ancestors are the
chain of them without repetition, the whole of it if nothing on it follows itself, and what it
inherits are the properties of that chain, the root first. -/
theorem Reachable.inheritance_exact (h : s.Reachable) :
    (∃ reports, reports.Perm (s.link.1.diagnostics.all.filter (·.kind == .circularInheritance)) ∧
      List.Forall₂ (fun d c => ∃ parent, c.parent = some parent ∧
        d = circularInheritance c parent) reports
        (s.link.1.model.classes.filter fun c => TransGen s.link.1.model.IsParent c.id c.id)) ∧
    ∀ id, s.link.1.model.ParentChain id (s.link.1.model.ancestors id) ∧
      (∀ chain, s.link.1.model.ParentChain id chain →
        s.link.1.model.extendedProperties id
          = chain.reverse.flatMap s.link.1.model.classProperties) ∧
      ((∀ a, ReflTransGen s.link.1.model.IsParent id a → ¬ TransGen s.link.1.model.IsParent a a) →
        s.link.1.model.parent? ((s.link.1.model.ancestors id).getLastD id) = none ∧
        ∀ a, a ∈ s.link.1.model.ancestors id ↔ TransGen s.link.1.model.IsParent id a) := by
  have hm := h.drafted.asLoaded
  have hnumbered : s.link.1.model.Numbered := by
    rw [link_model]
    exact (sound_link s.naming hm).numbered
  refine ⟨⟨inheritanceCycles s.link.1.model, ?_, forall₂_inheritanceCycles hnumbered⟩, fun id => ?_⟩
  · rw [link_model, ← inheritanceCycles_link s.naming hm, ← (filter_link_circles s.naming hm).2]
    exact (perm_diagnostics s rfl (by simp)).symm
  · have hchain := hnumbered.parentChain_ancestors id
    refine ⟨hchain, fun chain hother => by
      rw [hother.eq hchain, Model.extendedProperties], fun hacyclic => ?_⟩
    refine ⟨hchain.root fun a ha => hacyclic a ?_,
      fun a => hchain.mem_iff.trans (and_iff_left_of_imp ?_)⟩
    · rcases List.mem_cons.mp ha with rfl | ha
      · exact .refl
      · exact (hchain.mem_iff.mp ha).1.to_reflTransGen
    · rintro hreach rfl
      exact hacyclic _ .refl hreach

/-- A store with two classes that are each other's parents, and a child of one of them. -/
def lasso : Store :=
  loadAll {} [("A", "module: M\n---\nclass: {name: A, comment: c, extends: B, properties: []}\n"
    ++ "---\nclass: {name: B, comment: c, extends: C, properties: []}\n"
    ++ "---\nclass: {name: C, comment: c, extends: B, properties: []}")]

open Classical in
/-- There two classes are reported, the child has both as its ancestors, and so it is not
reported. -/
theorem inheritance_exact_in_lasso :
    lasso.Reachable ∧ (lasso.link.1.model.ancestors ⟨⟨0⟩, 0⟩ = [⟨⟨0⟩, 1⟩, ⟨⟨0⟩, 2⟩] ∧
      lasso.link.1.model.ParentChain ⟨⟨0⟩, 0⟩ [⟨⟨0⟩, 1⟩, ⟨⟨0⟩, 2⟩]) ∧
      (lasso.link.1.model.classes.filter fun c =>
        TransGen lasso.link.1.model.IsParent c.id c.id).length = 2 := by
  have hreach : lasso.Reachable := reachable_loadAll {} _
  have hrun : lasso.link.1.model.ancestors ⟨⟨0⟩, 0⟩ = [⟨⟨0⟩, 1⟩, ⟨⟨0⟩, 2⟩] ∧
      (lasso.link.1.diagnostics.all.filter (·.kind == .circularInheritance)).length = 2 := by
    have hspelled : lasso = _ :=
      loadAll_eq_foldl
        (.cons (toList_append_eq (toList_append_eq String.toList_ofList String.toList_ofList)
          String.toList_ofList) .nil)
    rw [hspelled]
    decide +kernel
  obtain ⟨⟨reports, hperm, hall⟩, hchains⟩ := Reachable.inheritance_exact hreach
  exact ⟨hreach, ⟨hrun.1, hrun.1 ▸ (hchains _).1⟩, by
    rw [← hall.length_eq, hperm.length_eq, hrun.2]⟩

end Store

end EntityModel
