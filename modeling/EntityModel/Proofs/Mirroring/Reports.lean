import EntityModel.Linking.Link
import EntityModel.Proofs.Linking.NameProblems
import EntityModel.Proofs.Linking.UseCycles
import EntityModel.Proofs.Mirroring.Aliases

/-!
# What is reported of mirrored models

What linking by name reports is read off one use, one alias or one reference after the other, and of
mirrored models the same is reported, relabelled and in the order of the files.  Circles of uses are
the exception: which of their uses is reported depends on where the search starts.  Whether any is
reported does not (`circularUses_of_mirrors`).  So linking by name reports nothing of a model if it
reports nothing of a mirrored one (`problems_linkNames_of_mirrors`).

Once properties are linked, open references to them and words behind `as` are found by looking at
one declaration after the other too, and of mirrored models the same is reported in this sense.
-/

namespace EntityModel.Linking

variable {ρ : Relabelling} {m m' : Model}

/-! ### Uses -/

theorem useProblemsFrom_relabel (hρ : ρ.Renames) (uses : List FileReference) : ∀ seen,
    useProblemsFrom seen (uses.map (Reference.relabel ρ))
      = (useProblemsFrom seen uses).map (Diagnostic.relabel ρ) := by
  induction uses with
  | nil => exact fun _ => rfl
  | cons use rest ih =>
    intro seen
    simp only [List.map_cons, useProblemsFrom, text_relabel, ih, hρ.target, Option.isNone_map,
      List.map_append]
    congr 1
    split
    · rfl
    · split <;> rfl

theorem perm_useProblems (h : m.Mirrors ρ m') :
    (useProblems m').Perm ((useProblems m).map (Diagnostic.relabel ρ)) :=
  perm_flatMap h.files fun f => useProblemsFrom_relabel h.renames f.uses []

/-- A circle of uses in a mirrored model is a mirrored circle. -/
theorem usesAcyclic_of_mirrors (h : m.Mirrors ρ m') (ha : UsesAcyclic m) : UsesAcyclic m' := by
  refine acyclic_of_simulation h.renames.injective (fun {a' b'} hu => ?_) (fun {a b'} hu => ?_) ha
  · obtain ⟨f', hf', use', huse', ht⟩ := hu
    obtain ⟨f, -, rfl⟩ := List.mem_map.mp (h.files.subset (Model.mem_of_file? hf').1)
    obtain ⟨use, -, rfl⟩ := List.mem_map.mp huse'
    rw [h.renames.target] at ht
    obtain ⟨b, -, rfl⟩ := Option.map_eq_some_iff.mp ht
    exact ⟨b, rfl⟩
  · obtain ⟨f', hf', use', huse', ht⟩ := hu
    rw [h.file?] at hf'
    obtain ⟨f, hf, rfl⟩ := Option.map_eq_some_iff.mp hf'
    obtain ⟨use, huse, rfl⟩ := List.mem_map.mp huse'
    rw [h.renames.target] at ht
    obtain ⟨b, hb, rfl⟩ := Option.map_eq_some_iff.mp ht
    exact ⟨b, rfl, f, hf, use, huse, hb⟩

/-- **If no circle of uses is reported of a model, none is reported of a mirrored one.** -/
theorem circularUses_of_mirrors (h : m.Mirrors ρ m') (hnone : circularUses m = []) :
    circularUses m' = [] := by
  rw [circularUses, List.map_eq_nil_iff] at hnone ⊢
  have hids' : (m'.files.map (·.id)).Nodup := by
    rw [(h.files.map _).nodup_iff, List.map_map]
    exact List.map_map (g := ρ.file) ▸ h.ids.map h.renames.injective
  rw [useCycles_eq_nil_iff hids']
  exact usesAcyclic_of_mirrors h ((useCycles_eq_nil_iff h.ids).mp hnone)

/-! ### Aliases of files -/

theorem aliasProblems_relabel (hρ : ρ.Renames) (a : Alias) :
    aliasProblems (a.relabel ρ) = (aliasProblems a).map (Diagnostic.relabel ρ) := by
  have hopen : ∀ {α : Type} [Relabelled α] (rs : Option (List (Reference α)))
      (report : Reference α → Diagnostic) (_ : ∀ r, report (r.relabel ρ) = (report r).relabel ρ),
      (((rs.map fun rs => rs.map (Reference.relabel ρ)).getD []).filter (·.target.isNone)).map
        report
        = (((rs.getD []).filter (·.target.isNone)).map report).map (Diagnostic.relabel ρ) := by
    intro α _ rs report hreport
    have htest : (fun r : Reference α => r.target.isNone) ∘ Reference.relabel ρ
        = fun r => r.target.isNone := by
      funext r
      simp only [Function.comp, hρ.target, Option.isNone_map]
    rw [getD_map, List.filter_map, htest, List.map_map, List.map_map]
    exact List.map_congr_left fun r _ => hreport r
  unfold aliasProblems
  rw [Alias.relabel_file, hρ.target]
  cases a.file.target with
  | none => rfl
  | some f =>
    simp only [Option.map_some, List.map_append]
    exact congrArg₂ _ (hopen a.classes _ fun _ => rfl) (hopen a.endpoints _ fun _ => rfl)

theorem perm_fileAliasProblems (h : m.Mirrors ρ m') :
    (fileAliasProblems m').Perm ((fileAliasProblems m).map (Diagnostic.relabel ρ)) := by
  refine perm_flatMap h.files fun f => ?_
  rw [ModelFile.relabel_aliases, List.flatMap_map, List.map_flatMap]
  exact List.flatMap_congr fun a _ => aliasProblems_relabel h.renames a

/-! ### References -/

theorem isResolved_relabel (hρ : ρ.Renames) (x : EntityReference) :
    (x.relabel ρ).isResolved = x.isResolved := by
  cases x <;>
    simp only [EntityReference.relabel, EntityReference.isResolved, hρ.target, Option.isSome_map]

theorem problem_relabel (x : EntityReference) : (x.relabel ρ).problem = x.problem.relabel ρ := by
  cases x <;> rfl

theorem perm_referenceProblems (h : m.Mirrors ρ m') :
    (referenceProblems m').Perm ((referenceProblems m).map (Diagnostic.relabel ρ)) := by
  refine perm_flatMap h.files fun f => ?_
  have htest : (fun x : EntityReference => !x.isResolved) ∘ EntityReference.relabel ρ
      = fun x => !x.isResolved := by
    funext x
    simp only [Function.comp, isResolved_relabel h.renames]
  rw [fileReferences_relabel, List.filter_map, htest, List.map_map, List.map_map]
  exact List.map_congr_left fun x _ => problem_relabel x

theorem follow_map {α β : Type} [DecidableEq α] [DecidableEq β] {φ : α → β}
    (hφ : Function.Injective φ)
    {next : α → Option α} {next' : β → Option β} (hn : ∀ a, next' (φ a) = (next a).map φ)
    (fuel : Nat) :
    ∀ (seen : List α) (start : Option α),
      follow next' fuel (seen.map φ) (start.map φ) = (follow next fuel seen start).map φ := by
  induction fuel with
  | zero => exact fun _ _ => rfl
  | succ fuel ih =>
    intro seen start
    cases start with
    | none => rfl
    | some a =>
      simp only [Option.map_some, follow, List.mem_map_of_injective hφ]
      split
      · rfl
      · rw [List.map_cons, ← ih, hn, List.map_cons]

theorem inheritsFromItself_relabel (h : m.Mirrors ρ m') (C : ClassId) :
    m'.inheritsFromItself (C.relabel ρ) = m.inheritsFromItself C := by
  have hlength : m'.classes.length = m.classes.length := by
    rw [h.classes.length_eq, List.length_map]
  have hchain := follow_map h.renames.id_injective h.parent? (m.classes.length + 1) [] (m.parent? C)
  rw [List.map_nil] at hchain
  unfold Model.inheritsFromItself
  rw [hlength, h.parent?, hchain, Bool.eq_iff_iff, List.contains_iff_mem, List.contains_iff_mem,
    List.mem_map_of_injective h.renames.id_injective]

theorem perm_inheritanceCycles (h : m.Mirrors ρ m') :
    (inheritanceCycles m').Perm ((inheritanceCycles m).map (Diagnostic.relabel ρ)) := by
  refine perm_filterMap h.classes fun c => ?_
  rw [Class.relabel_parent, Class.relabel_id, inheritsFromItself_relabel h]
  cases c.parent with
  | none => rfl
  | some parent =>
    simp only [Option.map_some, bind, Option.bind_some]
    split <;> rfl

/-! ### Nothing is reported -/

theorem eq_nil_of_perm {α β : Type} {φ : α → β} {as : List α} {bs : List β} (h : bs.Perm (as.map φ))
    (hnone : as = []) : bs = [] := by
  rw [hnone, List.map_nil, List.perm_nil] at h
  exact h

/-- **If linking by name reports nothing of a model, it reports nothing of a mirrored one.** -/
theorem problems_linkNames_of_mirrors (h : m.Mirrors ρ m') (hd : m.DomainsApart)
    (hnone : (linkNames m).problems = []) : (linkNames m').problems = [] := by
  simp only [linkNames, List.append_eq_nil_iff] at hnone ⊢
  obtain ⟨⟨⟨⟨huses, hcircular⟩, haliases⟩, hreferences⟩, hparents⟩ := hnone
  have hused := mirrors_resolveUses h
  have hnamed := mirrors_namedModel h hd
  exact ⟨⟨⟨⟨eq_nil_of_perm (perm_useProblems hused) huses, circularUses_of_mirrors hused hcircular⟩,
    eq_nil_of_perm (perm_fileAliasProblems (mirrors_aliasedModel h)) haliases⟩,
    eq_nil_of_perm (perm_referenceProblems hnamed) hreferences⟩,
    eq_nil_of_perm (perm_inheritanceCycles hnamed) hparents⟩

/-! ## Once properties are linked -/

variable {rules : NamingRules}

/-! ### Open references -/

theorem perm_associationProblems (h : m.Mirrors ρ m') :
    (associationProblems m').Perm ((associationProblems m).map (Diagnostic.relabel ρ)) := by
  refine perm_filterMap h.properties fun p => ?_
  rw [openTarget_relabel h.renames]
  cases openTarget p with
  | none => rfl
  | some x =>
    obtain ⟨C, r⟩ := x
    simp only [Option.map_some, bind, Option.bind_some, className_relabel h]
    rfl

theorem reportOpen_relabel (hρ : ρ.Renames) {report report' : PropertyReference → Diagnostic}
    (hr : ∀ r, report' (r.relabel ρ) = (report r).relabel ρ) (rs : List PropertyReference) :
    ((rs.map (Reference.relabel ρ)).filter isOpen).map report'
      = ((rs.filter isOpen).map report).map (Diagnostic.relabel ρ) := by
  have htest : isOpen ∘ Reference.relabel ρ = isOpen := by
    funext r
    simp only [Function.comp, isOpen, hρ.target, Option.isNone_map]
  rw [List.filter_map, htest, List.map_map, List.map_map]
  exact List.map_congr_left fun r _ => hr r

theorem propertyMissing_relabel (c : Class) (r : PropertyReference) :
    propertyMissing (c.relabel ρ) (r.relabel ρ) = (propertyMissing c r).relabel ρ := rfl

theorem uniqueKeyMissing_relabel (c : Class) (r : PropertyReference) :
    uniqueKeyMissing (c.relabel ρ) (r.relabel ρ) = (uniqueKeyMissing c r).relabel ρ := rfl

theorem classPropertyProblems_relabel (hρ : ρ.Renames) (c : Class) :
    classPropertyProblems (c.relabel ρ) = (classPropertyProblems c).map (Diagnostic.relabel ρ) := by
  have hspecial : [(c.relabel ρ).defaultProperty, (c.relabel ρ).orderProperty,
      (c.relabel ρ).flagProperty].filterMap id
      = ([c.defaultProperty, c.orderProperty, c.flagProperty].filterMap id).map
        (Reference.relabel ρ) := by
    simp only [Class.relabel_defaultProperty, Class.relabel_orderProperty,
      Class.relabel_flagProperty]
    cases c.defaultProperty <;> cases c.orderProperty <;> cases c.flagProperty <;> rfl
  have hkeys : (c.relabel ρ).uniqueKeys.flatten
      = c.uniqueKeys.flatten.map (Reference.relabel ρ) := by
    rw [Class.relabel_uniqueKeys, List.map_flatten]
  have hfields : (c.relabel ρ).values.flatMap (fun v => v.fields.map ValueField.property)
      = (c.values.flatMap fun v => v.fields.map ValueField.property).map (Reference.relabel ρ) := by
    simp only [Class.relabel_values, ReferenceValue.relabel_fields, List.flatMap_map,
      List.map_flatMap, List.map_map]
    rfl
  simp only [classPropertyProblems, hspecial, hkeys, hfields, List.map_append,
    reportOpen_relabel hρ (propertyMissing_relabel c),
    reportOpen_relabel hρ (uniqueKeyMissing_relabel c)]

theorem perm_propertyReferenceProblems (h : m.Mirrors ρ m') :
    (propertyReferenceProblems m').Perm
      ((propertyReferenceProblems m).map (Diagnostic.relabel ρ)) :=
  perm_flatMap h.classes (classPropertyProblems_relabel h.renames)

/-! ### Words behind `as` -/

theorem asDomainProblem_relabel (h : m.Mirrors ρ m') (p : Property) :
    asDomainProblem m' (p.relabel ρ) = (asDomainProblem m p).map (Diagnostic.relabel ρ) := by
  unfold asDomainProblem
  rw [Model.Mirrors.asName_relabel, Property.relabel_id, h.baseDomain]
  cases Model.asName p with
  | none => rfl
  | some word =>
    cases m.baseDomain p.id with
    | none => rfl
    | some id =>
      simp only [Option.map_some, bind, Option.bind_some, h.domain?]
      cases m.domain? id with
      | none => rfl
      | some d =>
        simp only [Option.map_some, Option.bind_some, Located.relabel_value, h.asDomain_target]
        cases (d.asDomains.lookup word.value).bind Reference.target <;> rfl

theorem perm_asDomainProblems (h : m.Mirrors ρ m') :
    (asDomainProblems m').Perm ((asDomainProblems m).map (Diagnostic.relabel ρ)) :=
  perm_filterMap h.properties (asDomainProblem_relabel h)

theorem exchangedDomainName_relabel (h : m.Mirrors ρ m') (p : Property) :
    exchangedDomainName m' (p.relabel ρ) = exchangedDomainName m p := by
  unfold exchangedDomainName
  rw [Model.Mirrors.asName_relabel, Property.relabel_id, h.baseDomain]
  cases Model.asName p with
  | none => rfl
  | some word =>
    cases m.baseDomain p.id with
    | none => rfl
    | some id =>
      simp only [Option.map_some, bind, Option.bind_some, h.domain?]
      cases m.domain? id with
      | none => rfl
      | some d =>
        simp only [Option.map_some, Option.bind_some, Located.relabel_value, h.asDomain_target]
        cases (d.asDomains.lookup word.value).bind Reference.target with
        | none => rfl
        | some target =>
          simp only [Option.map_some, Option.bind_some, h.domain?]
          cases m.domain? target <;> rfl

end EntityModel.Linking
