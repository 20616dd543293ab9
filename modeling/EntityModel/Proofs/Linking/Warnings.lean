import EntityModel.Proofs.Linking.ReportKinds

/-!
# What linking warns of

Linking reports many kinds of problems and warns of two, imports and domains that nothing uses
(`unusedProblems`).  Whatever the other checks report is an error, so where linking reports no error
they report nothing (`nothing_reported`).  The warnings about a file stand at its uses and its
domains, that is in the file, so those that linking keeps for it are found by looking at it alone
(`filter_unusedProblems`).
-/

namespace EntityModel

def AllErrors (ds : List Diagnostic) : Prop := ∀ d ∈ ds, d.isError = true

theorem AllErrors.eq_nil {ds : List Diagnostic} (h : AllErrors ds)
    (hnone : ∀ d ∈ ds, d.isError = false) :
    ds = [] := by
  rw [List.eq_nil_iff_forall_not_mem]
  intro d hd
  have := h d hd
  rw [hnone d hd] at this
  exact absurd this (by simp)

theorem OfKinds.allErrors {kinds : List DiagnosticKind} {ds : List Diagnostic}
    (h : OfKinds kinds ds) (hkinds : ∀ k ∈ kinds, k.severity = .error) : AllErrors ds := by
  intro d hd
  unfold Diagnostic.isError Diagnostic.severity
  rw [hkinds _ (List.contains_iff_mem.mp (h d hd))]
  rfl

theorem Validation.errors_problems (m : Model) (rules : NamingRules) :
    AllErrors (problems m rules) := by
  rw [problems_eq]
  intro d hd
  rcases List.mem_append.mp hd with hd | hd
  · exact (kinds_duplicates m).allErrors (by decide) d hd
  · exact (kinds_partProblems m rules).allErrors (by decide) d hd

namespace Linking

variable {rules : NamingRules} {m : Model}

/-- **Where linking reports no error, the checks report nothing**: neither those of names nor those
of properties that are linked. -/
theorem nothing_reported (hnone : ∀ d ∈ (m.link rules).problems, d.isError = false) :
    (linkNames m).problems = [] ∧ associationProblems (associated rules m) = [] ∧
      propertyReferenceProblems (m.link rules).model = [] ∧
      asDomainProblems (m.link rules).model = [] ∧
      Validation.problems (m.link rules).model rules = [] := by
  have hparts : (m.link rules).problems = (linkNames m).problems
      ++ ((expanded rules m).problems ++ associationProblems (associated rules m)
        ++ propertyReferenceProblems (m.link rules).model ++ asDomainProblems (m.link rules).model)
      ++ Validation.problems (m.link rules).model rules ++ unusedProblems (m.link rules).model :=
      rfl
  simp only [hparts, List.mem_append] at hnone
  exact ⟨((kinds_linkNames m).allErrors (by decide)).eq_nil fun d hd => hnone d (by simp [hd]),
    ((kinds_associationProblems _).allErrors (by decide)).eq_nil fun d hd => hnone d (by simp [hd]),
    ((kinds_propertyReferenceProblems _).allErrors (by decide)).eq_nil fun d hd =>
      hnone d (by simp [hd]),
    ((kinds_asDomainProblems _).allErrors (by decide)).eq_nil fun d hd => hnone d (by simp [hd]),
    (Validation.errors_problems _ _).eq_nil fun d hd => hnone d (by simp [hd])⟩

/-! ### Warnings -/

def unusedIn (m : Model) (f : ModelFile) : List Diagnostic :=
  (f.uselessImports.map fun use => { problem := .unusedImport use.text, location := use.location })
    ++ (f.domains.filter fun d => !isDomainUsed m d.id).map fun d =>
      { problem := .unusedDomain d.name.value, location := d.name.location }

theorem unusedProblems_eq (m : Model) : unusedProblems m = m.files.flatMap (unusedIn m) := rfl

/-- What a file linked by name warns of stands in a draft of its id. -/
theorem exists_draft_of_linkNames_file {n : ModelFile} (hn : n ∈ (linkNames m).model.files) :
    ∃ d ∈ m.files, n.id = d.id ∧ (∀ r ∈ n.uselessImports, ∃ r' ∈ d.uses, r.name = r'.name) ∧
      ∀ x ∈ n.domains, ∃ y ∈ d.domains, x.name = y.name := by
  obtain ⟨r, hr, rfl⟩ := List.mem_map.mp hn
  obtain ⟨a, ha, rfl⟩ := List.mem_map.mp hr
  obtain ⟨u, hu, rfl⟩ := List.mem_map.mp ha
  obtain ⟨d, hd, rfl⟩ := List.mem_map.mp hu
  refine ⟨d, hd, rfl, fun r hr => ?_, fun x hx => ?_⟩
  · obtain ⟨⟨use, index⟩, huse, rfl⟩ := List.mem_map.mp hr
    have huse : use ∈ resolveUsesFrom m [] d.uses :=
      List.fst_mem_of_mem_zipIdx (List.mem_filter.mp huse).1
    have hmem := List.mem_map_of_mem (f := fun r : FileReference => r.name) huse
    rw [names_resolveUsesFrom, List.mem_map] at hmem
    obtain ⟨r', hr', hname⟩ := hmem
    exact ⟨r', hr', hname.symm⟩
  · obtain ⟨y, hy, rfl⟩ := List.mem_map.mp hx
    exact ⟨y, hy, rfl⟩

/-- What a file of the linked model warns of stands in a draft of its id. -/
theorem exists_draft_of_link (h : m.AsLoaded) {f : ModelFile}
    (hf : f ∈ (m.link rules).model.files) :
    ∃ d ∈ m.files, f.id = d.id ∧ (∀ r ∈ f.uselessImports, ∃ r' ∈ d.uses, r.name = r'.name) ∧
      ∀ x ∈ f.domains, ∃ y ∈ d.domains, x.name = y.name := by
  obtain ⟨n, hn, hhead⟩ := exists_named_file h hf
  rw [hhead.id, hhead.uselessImports, hhead.domains]
  exact exists_draft_of_linkNames_file hn

theorem file_unusedIn (h : m.AsLoaded) {f : ModelFile} (hf : f ∈ (m.link rules).model.files)
    {w : Diagnostic} (hw : w ∈ unusedIn (m.link rules).model f) : w.file = f.id := by
  obtain ⟨d, hd, hid, huses, hdomains⟩ := exists_draft_of_link h hf
  have hfresh := h.fresh d hd
  rw [hid]
  rcases List.mem_append.mp hw with hw | hw
  · obtain ⟨r, hr, rfl⟩ := List.mem_map.mp hw
    obtain ⟨r', hr', he⟩ := huses r hr
    exact (congrArg (fun n : Located String => n.location.file) he).trans
      (Reference.of_fixed (hfresh.uses r' hr')).2
  · obtain ⟨x, hx, rfl⟩ := List.mem_map.mp hw
    obtain ⟨y, hy, he⟩ := hdomains x (List.mem_filter.mp hx).1
    exact (congrArg (fun n : Located String => n.location.file) he).trans
      (congrArg (fun d : Domain => d.name.location.file) (hfresh.domains y hy)).symm

/-- **The warnings at the places of a file are those about the file.** -/
theorem filter_unusedProblems (h : m.AsLoaded) (id : FileId) :
    (unusedProblems (m.link rules).model).filter (fun d => d.file == id)
      = (((m.link rules).model.file? id).map (unusedIn (m.link rules).model)).getD [] := by
  have hids := (sound_link rules h).numbered.files
  have hplace : ∀ f ∈ (m.link rules).model.files, ∀ w ∈ unusedIn (m.link rules).model f,
      w.file = f.id :=
    fun f hf w hw => file_unusedIn h hf hw
  rw [unusedProblems_eq, Model.file?]
  generalize (m.link rules).model = n at hids hplace ⊢
  suffices hfiles : ∀ files : List ModelFile, (files.map (·.id)).Nodup →
      (∀ f ∈ files, ∀ w ∈ unusedIn n f, w.file = f.id) →
      (files.flatMap (unusedIn n)).filter (fun d => d.file == id)
        = ((files.find? (·.id == id)).map (unusedIn n)).getD [] from
    hfiles n.files hids hplace
  intro files
  induction files with
  | nil => exact fun _ _ => rfl
  | cons f rest ih =>
    intro hids hplace
    obtain ⟨hnot, hids⟩ := List.nodup_cons.mp (List.map_cons .. ▸ hids)
    have hrest := ih hids fun g hg => hplace g (List.mem_cons_of_mem _ hg)
    have hhere := hplace f List.mem_cons_self
    rw [List.flatMap_cons, List.filter_append, hrest, List.find?_cons]
    by_cases he : f.id = id
    · have hall : (unusedIn n f).filter (fun d => d.file == id) = unusedIn n f :=
        List.filter_eq_self.mpr fun w hw => by rw [hhere w hw, he, beq_self_eq_true]
      have hnone : rest.find? (·.id == id) = none := by
        rw [List.find?_eq_none]
        intro g hg hgid
        exact hnot (List.mem_map.mpr ⟨g, hg, (beq_iff_eq.mp hgid).trans he.symm⟩)
      rw [hall, hnone, he, beq_self_eq_true]
      exact List.append_nil _
    · have hnone : (unusedIn n f).filter (fun d => d.file == id) = [] :=
        List.filter_eq_nil_iff.mpr fun w hw => by rw [hhere w hw, beq_iff_eq]; exact he
      rw [hnone, List.nil_append, beq_false_of_ne he]

end Linking

end EntityModel
