import EntityModel.Proofs.Linking.Targets
import EntityModel.Proofs.Mirroring.LinkedNames
import EntityModel.Proofs.Mirroring.Naming

/-!
# Associations in mirrored models

In each round over the associations every property is looked at on its own, in the same model.  So
the rounds take mirrored models to mirrored ones, and there are equally many of them
(`mirrors_resolveAssociations`).  The same is true of what classes name of their own properties
(`mirrors_resolvePropertyReferences`).
-/

namespace EntityModel.Linking

variable {ρ : Relabelling} {m m' : Model} {rules : NamingRules}

theorem standsForChoice_relabel (p : Property) :
    (p.relabel ρ).standsForChoice = p.standsForChoice := by
  cases hk : p.kind <;>
    simp [Property.standsForChoice, Property.alias?, hk, PropertyKind.relabel,
      AliasProperty.needsExpansion]

theorem isSettled_relabel (h : m.Mirrors ρ m') (C : ClassId) :
    isSettled m' (C.relabel ρ) = isSettled m C := by
  rw [Bool.eq_iff_iff, isSettled_iff, isSettled_iff, h.classProperties]
  simp only [List.mem_map, forall_exists_index, and_imp, forall_apply_eq_imp_iff₂,
    standsForChoice_relabel]

theorem openTarget_relabel (hρ : ρ.Renames) (p : Property) :
    openTarget (p.relabel ρ) = (openTarget p).map fun (C, r) => (C.relabel ρ, r.relabel ρ) := by
  obtain ⟨id, l, k⟩ := p
  cases k with
  | association a =>
    simp only [openTarget, Property.association?, bind, Property.relabel, PropertyKind.relabel,
      Option.bind_some, AssociationProperty.relabel_property,
      AssociationProperty.relabel_association]
    cases a.property with
    | none => rfl
    | some r =>
      simp only [Option.map_some, Option.bind_some, hρ.target]
      cases a.association.target with
      | none => rfl
      | some C => cases r.target <;> rfl
  | _ => rfl

theorem associationTarget_relabel (h : m.Mirrors ρ m') (settled : Bool) (p : Property) :
    associationTarget m' rules settled (p.relabel ρ)
      = (associationTarget m rules settled p).map (PropertyId.relabel ρ) := by
  unfold associationTarget
  rw [openTarget_relabel h.renames]
  cases openTarget p with
  | none => rfl
  | some x =>
    obtain ⟨C, r⟩ := x
    simp only [bind, Option.map_some, Option.bind_some, isSettled_relabel h, text_relabel,
      h.findProperty]
    cases settled && !isSettled m C <;> rfl

theorem withAssociationTarget_relabel (hρ : ρ.Renames) (target : Option PropertyId) (p : Property) :
    withAssociationTarget (target.map (PropertyId.relabel ρ)) (p.relabel ρ)
      = (withAssociationTarget target p).relabel ρ := by
  obtain ⟨id, l, k⟩ := p
  cases target with
  | none => cases k <;> rfl
  | some t =>
    cases k with
    | association a =>
      simp only [withAssociationTarget, Property.relabel, PropertyKind.relabel, Option.map_some,
        AssociationProperty.relabel, Option.map_map, Property.mk.injEq,
        PropertyKind.association.injEq, AssociationProperty.mk.injEq, true_and, and_true]
      congr 1
      funext r
      exact resolve_relabel hρ r t
    | _ => rfl

theorem mirrors_associationRound (h : m.Mirrors ρ m') (settled : Bool) :
    (associationRound m rules settled).Mirrors ρ (associationRound m' rules settled) :=
  h.mapProperties fun p => by
    rw [associationTarget_relabel h, withAssociationTarget_relabel h.renames]

/-- What is asked of every property is asked of the mirrored ones. -/
theorem any_properties (h : m.Mirrors ρ m') (test : Property → Bool) {test' : Property → Bool}
    (ht : ∀ p, test' (p.relabel ρ) = test p) : m'.properties.any test' = m.properties.any test := by
  rw [h.properties.any_eq, List.any_map]
  congr 1
  funext p
  exact ht p

theorem countP_properties (h : m.Mirrors ρ m') (test : Property → Bool) {test' : Property → Bool}
    (ht : ∀ p, test' (p.relabel ρ) = test p) :
    m'.properties.countP test' = m.properties.countP test := by
  rw [h.properties.countP_eq, List.countP_map]
  congr 1
  funext p
  exact ht p

theorem mirrors_associationRounds (settled : Bool) (fuel : Nat) (h : m.Mirrors ρ m') :
    (associationRounds rules settled fuel m).Mirrors ρ
      (associationRounds rules settled fuel m') := by
  induction fuel generalizing m m' with
  | zero => exact h
  | succ fuel ih =>
    unfold associationRounds
    rw [any_properties h (fun p => (associationTarget m rules settled p).isSome) fun p => by
      rw [associationTarget_relabel h, Option.isSome_map]]
    split
    · exact ih (mirrors_associationRound h settled)
    · exact h

/-- **Resolving associations takes mirrored models to mirrored ones.** -/
theorem mirrors_resolveAssociations (settled : Bool) (h : m.Mirrors ρ m') :
    (resolveAssociations rules settled m).Mirrors ρ (resolveAssociations rules settled m') := by
  unfold resolveAssociations
  rw [countP_properties h (fun p => (openTarget p).isSome) fun p => by
    rw [openTarget_relabel h.renames, Option.isSome_map]]
  exact mirrors_associationRounds settled _ h

/-! ### What classes name -/

theorem resolveClassProperties_relabel (hρ : ρ.Renames) {find find' : String → Option PropertyId}
    (hf : ∀ name, find' name = (find name).map (Relabelled.relabel ρ)) (c : Class) :
    resolveClassProperties find' (c.relabel ρ) = (resolveClassProperties find c).relabel ρ := by
  have hr := resolveBy_relabel hρ hf
  have hopt : ∀ o : Option PropertyReference, (o.map (Reference.relabel ρ)).map (resolveBy find')
      = (o.map (resolveBy find)).map (Reference.relabel ρ) := fun o => by
    cases o with
    | none => rfl
    | some r => exact congrArg some (hr r)
  simp only [resolveClassProperties, Class.relabel, hopt, List.map_map, Class.mk.injEq,
    true_and, and_true]
  refine ⟨List.map_congr_left fun key _ => ?_, List.map_congr_left fun v _ => ?_⟩
  · simp only [Function.comp, List.map_map]
    exact List.map_congr_left fun r _ => hr r
  · simp only [Function.comp, ReferenceValue.relabel, List.map_map,
      ReferenceValue.mk.injEq, true_and]
    exact List.map_congr_left fun field _ => congrArg₂ ValueField.mk (hr field.property) rfl

/-- **Resolving what classes name takes mirrored models to mirrored ones.** -/
theorem mirrors_resolvePropertyReferences (h : m.Mirrors ρ m') :
    (resolvePropertyReferences rules m).Mirrors ρ (resolvePropertyReferences rules m') :=
  h.mapClasses fun c _ => resolveClassProperties_relabel h.renames (h.findProperty c.id) c

end EntityModel.Linking
