import EntityModel.Proofs.Linking.HeldReferences
import EntityModel.Proofs.Linking.Stages

/-!
# Names that are not found

Uses, aliases of files and references to classes, decorators and domains are looked up by name, and
after each of these stages what was not found is read off the model.  Nothing is lost on the way: a
reference of a file that was open before is resolved to something of the model or reported at its
place (`resolved_or_use_problem`, `resolved_or_alias_problem`, `resolved_or_reference_problem`).
-/

namespace EntityModel.Linking

variable {m : Model}

/-! ### Uses -/

theorem fileNamed?_live {name : String} {f : ModelFile} (h : m.fileNamed? name = some f) :
    (Entity.file f.id).Live m := ⟨f, List.mem_of_find?_eq_some h, rfl⟩

def resolvedUse (m : Model) (seen : List String) (use : FileReference) : FileReference :=
  if seen.contains use.text then use
  else match m.fileNamed? use.text with
    | some f => use.resolve f.id
    | none => use

theorem resolveUsesFrom_cons (m : Model) (seen : List String) (use : FileReference)
    (rest : List FileReference) :
    resolveUsesFrom m seen (use :: rest)
      = resolvedUse m seen use :: resolveUsesFrom m (use.text :: seen) rest := rfl

theorem resolvedUse_name (m : Model) (seen : List String) (use : FileReference) :
    (resolvedUse m seen use).name = use.name := by
  unfold resolvedUse
  split
  · rfl
  · split <;> rfl

theorem names_resolveUsesFrom (m : Model) (uses : List FileReference) : ∀ seen,
    (resolveUsesFrom m seen uses).map (·.name) = uses.map (·.name) := by
  induction uses with
  | nil => exact fun _ => rfl
  | cons use rest ih =>
    intro seen
    rw [resolveUsesFrom_cons, List.map_cons, List.map_cons, resolvedUse_name, ih]

/-- **A use is resolved to a file of the model, or it is reported**: as named again, or as not
found. -/
theorem resolved_or_use_problem (m : Model) (uses : List FileReference) : ∀ seen,
    (∀ r ∈ uses, r.target = none) → ∀ r ∈ resolveUsesFrom m seen uses,
      (∃ id, r.target = some id ∧ (Entity.file id).Live m) ∨
        ∃ d ∈ useProblemsFrom seen (resolveUsesFrom m seen uses), d.isError = true ∧
          d.location = r.location := by
  induction uses with
  | nil => simp [resolveUsesFrom]
  | cons use rest ih =>
    intro seen hopen r hr
    have hname := resolvedUse_name m seen use
    have htext : (resolvedUse m seen use).text = use.text := congrArg Located.value hname
    rw [resolveUsesFrom_cons] at hr ⊢
    unfold useProblemsFrom
    rw [htext]
    rcases List.mem_cons.mp hr with rfl | hr
    · by_cases hc : seen.contains use.text = true
      · rw [if_pos hc]
        exact Or.inr ⟨_, List.mem_append_left _ (List.mem_singleton_self _), rfl, rfl⟩
      · rw [if_neg hc]
        cases hf : m.fileNamed? use.text with
        | some f =>
          have hres : resolvedUse m seen use = use.resolve f.id := by
            unfold resolvedUse
            rw [if_neg hc, hf]
          exact Or.inl ⟨f.id, by rw [hres]; rfl, fileNamed?_live hf⟩
        | none =>
          have hres : resolvedUse m seen use = use := by
            unfold resolvedUse
            rw [if_neg hc, hf]
          have htarget : (resolvedUse m seen use).target.isNone = true := by
            rw [hres, hopen use List.mem_cons_self]
            rfl
          rw [if_pos htarget]
          exact Or.inr ⟨_, List.mem_append_left _ (List.mem_singleton_self _), rfl, rfl⟩
    · rcases ih (use.text :: seen) (fun r hr => hopen r (List.mem_cons_of_mem _ hr)) r hr with h |
        ⟨d, hd, h⟩
      · exact Or.inl h
      · exact Or.inr ⟨d, List.mem_append_right _ hd, h⟩

/-! ### Aliases of files -/

theorem findClass_live {f : ModelFile} (hf : f ∈ m.files) {name : String} {id : ClassId}
    (h : findClass f name = some id) : (Entity.cls id).Live m := by
  obtain ⟨c, hc, rfl⟩ := Option.map_eq_some_iff.mp h
  exact ⟨c, List.mem_flatMap.mpr ⟨f, hf, List.mem_of_find?_eq_some hc⟩, rfl⟩

theorem findEndpoint_live {f : ModelFile} (hf : f ∈ m.files) {name : String} {id : EndpointId}
    (h : findEndpoint f name = some id) : (Entity.endpoint id).Live m := by
  obtain ⟨e, he, rfl⟩ := Option.map_eq_some_iff.mp h
  exact ⟨e, List.mem_flatMap.mpr ⟨f, hf, List.mem_of_find?_eq_some he⟩, rfl⟩

theorem resolveBy_name {α : Type} (find : String → Option α) (r : Reference α) :
    (resolveBy find r).name = r.name := by
  unfold resolveBy
  split <;> rfl

theorem resolveBy_open {α : Type} (find : String → Option α) {r : Reference α}
    (ho : r.target = none) :
    (resolveBy find r).target = find r.text := by
  unfold resolveBy
  cases h : find r.text with
  | some t => rfl
  | none => exact ho

structure AliasOpen (a : Alias) : Prop where
  file : a.file.target = none
  classes : ∀ r ∈ a.classes.getD [], r.target = none
  endpoints : ∀ r ∈ a.endpoints.getD [], r.target = none

theorem getD_map {α β : Type} (o : Option (List α)) (g : α → β) :
    (o.map (·.map g)).getD [] = (o.getD []).map g := by cases o <;> rfl

/-- **What an alias block names is resolved to something of the model, or it is reported** at its
own place or at that of the file. -/
theorem resolved_or_alias_problem (m : Model) {a : Alias} (ho : AliasOpen a) :
    ∀ x ∈ (resolveAlias m a).heldReferences, x.Resolved m ∨
      ∃ d ∈ aliasProblems (resolveAlias m a), d.isError = true ∧ x.IsAbout d.location := by
  intro x hx
  cases hf : m.fileNamed? a.file.text with
  | none =>
    -- the error at the file is about the whole block
    have hres : resolveAlias m a = a := by simp only [resolveAlias, hf]
    right
    refine ⟨{ problem := .fileNotFound a.file.text, location := a.file.location }, ?_, rfl, ?_⟩
    · simp [hres, aliasProblems, ho.file]
    · rw [hres] at hx
      simp only [Alias.heldReferences, List.cons_append, List.mem_cons, List.mem_append,
        List.mem_map] at hx
      rcases hx with rfl | ⟨r, _, rfl⟩ | ⟨r, _, rfl⟩
      · exact Or.inl rfl
      · exact Or.inr (Or.inl rfl)
      · exact Or.inr (Or.inl rfl)
  | some f =>
    have hmem : f ∈ m.files := List.mem_of_find?_eq_some hf
    have hres : resolveAlias m a = { a with
        file := a.file.resolve f.id
        classes := a.classes.map fun rs => rs.map (resolveBy (findClass f))
        endpoints := a.endpoints.map fun rs => rs.map (resolveBy (findEndpoint f)) } := by
      simp only [resolveAlias, hf]
    rw [hres] at hx ⊢
    simp only [Alias.heldReferences, List.cons_append, List.mem_cons, List.mem_append, List.mem_map,
      getD_map] at hx
    rcases hx with rfl | ⟨r', ⟨r, hr, rfl⟩, rfl⟩ | ⟨r', ⟨r, hr, rfl⟩, rfl⟩
    · exact Or.inl ⟨.file f.id, rfl, fileNamed?_live hf⟩
    · cases hc : findClass f r.text with
      | some id =>
        left
        refine ⟨.cls id, ?_, findClass_live hmem hc⟩
        simp [Reference.held, resolveBy_open _ (ho.classes r hr), hc]
      | none =>
        right
        refine ⟨{ problem := .classNotInFile (resolveBy (findClass f) r).text a.file.text
                  location := (resolveBy (findClass f) r).location }, ?_, rfl, Or.inl rfl⟩
        refine List.mem_append_left _ (List.mem_map.mpr ⟨_, List.mem_filter.mpr ⟨?_, ?_⟩, rfl⟩)
        · rw [getD_map]
          exact List.mem_map_of_mem hr
        · rw [resolveBy_open _ (ho.classes r hr), hc]
          rfl
    · cases hc : findEndpoint f r.text with
      | some id =>
        left
        refine ⟨.endpoint id, ?_, findEndpoint_live hmem hc⟩
        simp [Reference.held, resolveBy_open _ (ho.endpoints r hr), hc]
      | none =>
        right
        refine ⟨{ problem := .endpointNotInFile (resolveBy (findEndpoint f) r).text a.file.text
                  location := (resolveBy (findEndpoint f) r).location }, ?_, rfl, Or.inl rfl⟩
        refine List.mem_append_right _ (List.mem_map.mpr ⟨_, List.mem_filter.mpr ⟨?_, ?_⟩, rfl⟩)
        · rw [getD_map]
          exact List.mem_map_of_mem hr
        · rw [resolveBy_open _ (ho.endpoints r hr), hc]
          rfl

/-! ### References to classes, decorators and domains -/

theorem usedFiles_mem {f g : ModelFile} {index : Nat} (h : (index, g) ∈ usedFiles m f) :
    g ∈ m.files := by
  obtain ⟨⟨use, i⟩, _, h⟩ := List.mem_filterMap.mp h
  obtain ⟨g', hg, he⟩ := Option.map_eq_some_iff.mp h
  obtain ⟨_, rfl⟩ := Prod.mk.inj he
  obtain ⟨id, _, hg⟩ := Option.bind_eq_some_iff.mp hg
  exact (Model.mem_of_file? hg).1

theorem scope_findClass_live (hm : m.Numbered) {f : ModelFile} (hf : f ∈ m.files) {name : String}
    {id : ClassId} (h : (scopeOf m f).findClass name = some id) : (Entity.cls id).Live m := by
  obtain ⟨v, hv, rfl⟩ := Option.map_eq_some_iff.mp h
  have hmem := List.mem_of_find?_eq_some hv
  simp only [scopeOf, List.mem_append, List.mem_map, List.mem_filterMap, List.mem_flatMap] at hmem
  rcases hmem with (⟨c, hc, rfl⟩ | ⟨c, ⟨id, _, hc⟩, rfl⟩) | ⟨⟨i, g⟩, hg, c, hc, rfl⟩
  · exact ⟨c, List.mem_flatMap.mpr ⟨f, hf, hc⟩, rfl⟩
  · exact ⟨c, (hm.cls?_iff.mp hc).1, rfl⟩
  · exact ⟨c, List.mem_flatMap.mpr ⟨g, usedFiles_mem hg, hc⟩, rfl⟩

theorem scope_findDecorator_live {f : ModelFile} (hf : f ∈ m.files) {name : String}
    {id : DecoratorId}
    (h : (scopeOf m f).findDecorator name = some id) : (Entity.decorator id).Live m := by
  obtain ⟨v, hv, rfl⟩ := Option.map_eq_some_iff.mp h
  have hmem := List.mem_of_find?_eq_some hv
  simp only [scopeOf, List.mem_append, List.mem_map, List.mem_flatMap] at hmem
  rcases hmem with ⟨d, hd, rfl⟩ | ⟨⟨i, g⟩, hg, d, hd, rfl⟩
  · exact ⟨d, List.mem_flatMap.mpr ⟨f, hf, hd⟩, rfl⟩
  · exact ⟨d, List.mem_flatMap.mpr ⟨g, usedFiles_mem hg, hd⟩, rfl⟩

theorem findDomain_live {name : String} {id : DomainId} (h : findDomain m name = some id) :
    (Entity.domain id).Live m := by
  obtain ⟨d, hd, rfl⟩ := Option.map_eq_some_iff.mp h
  exact ⟨d, List.mem_of_find?_eq_some hd, rfl⟩

namespace EntityReference

def target : EntityReference → Option Entity
  | cls r => r.target.map .cls
  | decorator r => r.target.map .decorator
  | domain r => r.target.map .domain

def location : EntityReference → Location
  | cls r => r.location
  | decorator r => r.location
  | domain r => r.location

theorem problem_location (x : EntityReference) : x.problem.location = x.location := by
  cases x <;> rfl

theorem problem_isError (x : EntityReference) : x.problem.isError = true := by cases x <;> rfl

theorem location_resolve (s : Scope) (find : String → Option DomainId) (x : EntityReference) :
    (x.resolve s find).location = x.location := by
  cases x <;> exact resolveBy_location _ _

/-- **A reference that was looked up points to something of the model, or it is open.** -/
theorem resolved_or_open (hm : m.Numbered) {f : ModelFile} (hf : f ∈ m.files) {x : EntityReference}
    (hx : x.target = none) :
    (∃ e, (x.resolve (scopeOf m f) (findDomain m)).target = some e ∧ e.Live m) ∨
      (x.resolve (scopeOf m f) (findDomain m)).isResolved = false := by
  cases x with
  | cls r =>
    have ho := resolveBy_open (scopeOf m f).findClass (Option.map_eq_none_iff.mp hx)
    cases hc : (scopeOf m f).findClass r.text with
    | some id =>
      exact Or.inl ⟨.cls id, by
        simp [EntityReference.resolve, target, ho, hc], scope_findClass_live hm hf hc⟩
    | none => exact Or.inr (by simp [EntityReference.resolve, isResolved, ho, hc])
  | decorator r =>
    have ho := resolveBy_open (scopeOf m f).findDecorator (Option.map_eq_none_iff.mp hx)
    cases hc : (scopeOf m f).findDecorator r.text with
    | some id =>
      exact Or.inl ⟨.decorator id, by simp [EntityReference.resolve, target, ho, hc],
        scope_findDecorator_live hf hc⟩
    | none => exact Or.inr (by simp [EntityReference.resolve, isResolved, ho, hc])
  | domain r =>
    have ho := resolveBy_open (findDomain m) (Option.map_eq_none_iff.mp hx)
    cases hc : findDomain m r.text with
    | some id =>
      exact Or.inl ⟨.domain id, by
        simp [EntityReference.resolve, target, ho, hc], findDomain_live hc⟩
    | none => exact Or.inr (by simp [EntityReference.resolve, isResolved, ho, hc])

end EntityReference

/-- **A reference of a file is resolved to something of the model, or it is reported.** -/
theorem resolved_or_reference_problem (hm : m.Numbered) {f : ModelFile} (hf : f ∈ m.files)
    (ho : ∀ x ∈ fileReferences f, x.target = none) :
    ∀ x ∈ fileReferences (resolveReferencesOf m f), (∃ e, x.target = some e ∧ e.Live m) ∨
      ∃ d ∈ referenceProblems (resolveReferences m), d.isError = true ∧
      d.location = x.location := by
  intro x hx
  have hx' := hx
  rw [fileReferences_resolveReferencesOf, List.mem_map] at hx
  obtain ⟨x₀, hx₀, rfl⟩ := hx
  rcases EntityReference.resolved_or_open hm hf (ho x₀ hx₀) with h | hopen
  · exact Or.inl h
  · refine Or.inr ⟨_, List.mem_flatMap.mpr ⟨_, List.mem_map_of_mem hf, ?_⟩,
      EntityReference.problem_isError _, EntityReference.problem_location _⟩
    exact List.mem_map_of_mem (List.mem_filter.mpr ⟨hx', by simp [hopen]⟩)

theorem locations_resolveReferencesOf (m : Model) (f : ModelFile) :
    ∀ x ∈ fileReferences (resolveReferencesOf m f), ∃ x₀ ∈ fileReferences f,
    x.location = x₀.location := by
  intro x hx
  rw [fileReferences_resolveReferencesOf, List.mem_map] at hx
  obtain ⟨x₀, hx₀, rfl⟩ := hx
  exact ⟨x₀, hx₀, EntityReference.location_resolve _ _ _⟩

end EntityModel.Linking
