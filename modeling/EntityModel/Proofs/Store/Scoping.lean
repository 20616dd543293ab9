import EntityModel.Proofs.Linking.ReportKinds
import EntityModel.Proofs.Linking.Visibility
import EntityModel.Proofs.Store.References

/-!
# Scoping in a linked store

A class or a decorator is meant by its name alone, and the file that names it decides which one: the
first of the name that the file sees.  In a linked store each reference of a file points to just
that, and where the file sees nothing of the name there is one report of it in the file
(`Reachable.scoping_exact`).  The drafts alone decide what a file sees, since they know nothing of
what their aliases bring in before they are linked (`Reachable.resolvedAliases_draft`).
-/

namespace EntityModel

namespace Linking

variable {rules : NamingRules} {m : Model}

/-! ### What is to be reported -/

namespace EntityReference

def cls? : EntityReference → Option ClassReference
  | cls r => some r
  | _ => none

def decorator? : EntityReference → Option DecoratorReference
  | decorator r => some r
  | _ => none

end EntityReference

/-- The classes that an alias block lists and the file that it names does not declare. -/
def unlisted (m : Model) (a : Alias) : List Diagnostic :=
  match m.fileNamed? a.file.text with
  | none => []
  | some f =>
    ((a.classes.getD []).filter fun r => (findClass f r.text).isNone).map fun r =>
      { problem := .classNotInFile r.text a.file.text, location := r.location }

/-- The classes that a file refers to and does not see. -/
def unseenClasses (m : Model) (f : ModelFile) : List Diagnostic :=
  (((fileReferences f).filterMap (·.cls?)).filter fun r => (classSeen m f r.text).isNone).map
      fun r =>
    { problem := .classNotFound r.text, location := r.location }

def unseenDecorators (m : Model) (f : ModelFile) : List Diagnostic :=
  (((fileReferences f).filterMap (·.decorator?)).filter fun r =>
      (decoratorSeen m f r.text).isNone).map fun r =>
    { problem := .decoratorNotFound r.text, location := r.location }

/-! ### What is reported -/

/-- Only references and the lists of alias blocks are reported in these ways. -/
theorem filter_link_names (rules : NamingRules) (h : m.AsLoaded) {k : DiagnosticKind}
    (hk : k ∈ [DiagnosticKind.classNotFound, .decoratorNotFound]) :
    (m.link rules).problems.filter (·.kind == k)
      = (fileAliasProblems (aliasedModel m)).filter (·.kind == k)
        ++ (referenceProblems (namedModel m)).filter (·.kind == k) := by
  have hnone : ∀ {kinds ds}, OfKinds kinds ds →
      (∀ k ∈ [DiagnosticKind.classNotFound, .decoratorNotFound], k ∉ kinds) →
      ds.filter (·.kind == k) = [] := fun hds hdisjoint => hds.filter_eq_nil (hdisjoint k hk)
  rw [link_problems, Validation.problems_eq]
  simp only [List.filter_append, hnone (kinds_useProblems _) (by decide),
    hnone (kinds_circularUses _) (by decide), hnone (kinds_inheritanceCycles _) (by decide),
    hnone (kinds_expanded rules h) (by decide), hnone (kinds_associationProblems _) (by decide),
    hnone (kinds_propertyReferenceProblems _) (by decide),
    hnone (kinds_asDomainProblems _) (by decide), hnone (Validation.kinds_duplicates _) (by decide),
    hnone (Validation.kinds_partProblems _ rules) (by decide),
    hnone (kinds_unusedProblems _) (by decide), List.nil_append, List.append_nil]

theorem fileAliasProblems_aliasedModel (m : Model) : fileAliasProblems (aliasedModel m)
    = m.files.flatMap fun f => f.aliases.flatMap fun a =>
      aliasProblems (resolveAlias (resolveUses m) a) := by
  rw [aliasedModel_eq, fileAliasProblems, Model.mapFiles, List.flatMap_map]
  refine List.flatMap_congr fun f _ => ?_
  exact List.flatMap_map ..

def missedReferences (m : Model) (f : ModelFile) : List Diagnostic :=
  (((fileReferences f).map (EntityReference.lookedUp m f)).filter fun x => !x.isResolved).map
    EntityReference.problem

theorem referenceProblems_namedModel (h : m.AsLoaded)
    (hnone : ∀ f ∈ m.files, f.resolvedAliases = []) :
    referenceProblems (namedModel m) = m.files.flatMap (missedReferences m) := by
  have hfiles : (namedModel m).files
      = m.files.map fun f => resolveReferencesOf (aliasedModel m) (aliasedFile m f) := by
    have haliased : (aliasedModel m).files = m.files.map (aliasedFile m) :=
      congrArg Model.files (aliasedModel_eq m)
    rw [namedModel, resolveReferences, Model.mapFiles, haliased, List.map_map]
    rfl
  rw [referenceProblems, hfiles, List.flatMap_map]
  refine List.flatMap_congr fun f hf => ?_
  rw [fileReferences_named h hf (hnone f hf)]
  rfl

theorem filter_missedReferences (m : Model) (f : ModelFile) :
    (missedReferences m f).filter (·.kind == .classNotFound) = unseenClasses m f ∧
      (missedReferences m f).filter (·.kind == .decoratorNotFound) = unseenDecorators m f := by
  unfold missedReferences unseenClasses unseenDecorators
  -- both sides choose among the references one by one
  simp only [List.filter_map, List.filter_filter, List.map_map, List.filter_filterMap,
    List.map_filterMap]
  simp only [← List.filterMap_eq_map', List.filterMap_filter]
  constructor
  · refine List.filterMap_congr fun x _ => ?_
    cases x with
    | cls r =>
      cases hseen : classSeen m f r.name.value <;>
        simp [EntityReference.lookedUp, EntityReference.isResolved, EntityReference.cls?,
          EntityReference.problem, Diagnostic.kind, Problem.kind, Reference.text,
          Reference.location, Option.filter_some, hseen]
    | _ =>
      simp [EntityReference.lookedUp, EntityReference.cls?, EntityReference.problem,
        Diagnostic.kind, Problem.kind]
  · refine List.filterMap_congr fun x _ => ?_
    cases x with
    | decorator r =>
      cases hseen : decoratorSeen m f r.name.value <;>
        simp [EntityReference.lookedUp, EntityReference.isResolved, EntityReference.decorator?,
          EntityReference.problem, Diagnostic.kind, Problem.kind, Reference.text,
          Reference.location, Option.filter_some, hseen]
    | _ =>
      simp [EntityReference.lookedUp, EntityReference.decorator?, EntityReference.problem,
        Diagnostic.kind, Problem.kind]

theorem filter_aliasProblems {a : Alias} (ho : AliasOpen a) :
    (aliasProblems (resolveAlias (resolveUses m) a)).filter (·.kind == .classNotFound)
      = unlisted m a := by
  unfold aliasProblems resolveAlias unlisted
  rw [fileNamed?_resolveUses]
  cases m.fileNamed? a.file.text with
  | none =>
    simp only [Option.map_none, ho.file]
    rfl
  | some f =>
    have hclasses : ∀ rs : List ClassReference, OfKinds [.classNotFound] (rs.map fun r =>
        { problem := .classNotInFile r.text a.file.text, location := r.location }) :=
          fun _ => .map fun _ _ => rfl
    have hendpoints : ∀ rs : List EndpointReference, OfKinds [.endpointNotFound] (rs.map fun r =>
        { problem := .endpointNotInFile r.text a.file.text, location := r.location }) :=
          fun _ => .map fun _ _ => rfl
    simp only [Option.map_some, Reference.resolve, List.filter_append, getD_map]
    refine (congrArg₂ (· ++ ·) (hclasses _).filter_eq_self
      ((hendpoints _).filter_eq_nil (by decide))).trans ?_
    rw [List.append_nil, List.filter_map, List.map_map]
    refine congrArg₂ List.map (funext fun r => ?_) (List.filter_congr fun r hr => ?_)
    · simp only [Function.comp, resolveBy_text, resolveBy_location]
    · exact congrArg Option.isNone (resolveBy_open _ (ho.classes r hr))

theorem missedReferences_file {f : ModelFile} (hf : f.Fresh) :
    ∀ d ∈ missedReferences m f, d.file = f.id := by
  intro d hd
  obtain ⟨x, hx, rfl⟩ := List.mem_map.mp hd
  obtain ⟨y, hy, rfl⟩ := List.mem_map.mp (List.mem_of_mem_filter hx)
  have hfixed := hf.references y hy
  cases y with
  | cls r | decorator r | domain r =>
    exact (Reference.of_fixed (r := r) (by simpa [EntityReference.relabel] using hfixed)).2

/-- **What linking reports of the names in a file that it does not see.** -/
theorem filter_link_unseen (rules : NamingRules) (h : m.AsLoaded)
    (hnone : ∀ f ∈ m.files, f.resolvedAliases = [])
    {f : ModelFile} (hf : f ∈ m.files) :
    ((m.link rules).problems.filter (·.kind == .classNotFound)).filter (·.file == f.id)
        = f.aliases.flatMap (unlisted m) ++ unseenClasses m f ∧
      ((m.link rules).problems.filter (·.kind == .decoratorNotFound)).filter (·.file == f.id)
        = unseenDecorators m f := by
  have hids := (Model.numbered_iff.mp h.numbered).1
  have hopen : ∀ f ∈ m.files, ∀ a ∈ f.aliases, a.relabel (ModelFile.only f.id) = a :=
    fun f hf a ha =>
    (h.fresh f hf).aliases a ha
  have haliases : ∀ k, ((fileAliasProblems (aliasedModel m)).filter (·.kind == k)).filter
        (·.file == f.id)
      = f.aliases.flatMap fun a =>
        (aliasProblems (resolveAlias (resolveUses m) a)).filter (·.kind == k) := by
    intro k
    rw [fileAliasProblems_aliasedModel, List.filter_comm,
      Model.filter_of_file hids Diagnostic.file _ hf, List.filter_flatMap]
    intro g hg d hd
    obtain ⟨a, ha, hd⟩ := List.mem_flatMap.mp hd
    exact aliasProblems_file (hopen g hg a ha) hd
  have hreferences : ∀ k, ((referenceProblems (namedModel m)).filter (·.kind == k)).filter
        (·.file == f.id)
      = (missedReferences m f).filter (·.kind == k) := by
    intro k
    rw [referenceProblems_namedModel h hnone, List.filter_comm,
      Model.filter_of_file hids Diagnostic.file
        (fun g hg => missedReferences_file (h.fresh g hg)) hf]
  obtain ⟨hclasses, hdecorators⟩ := filter_missedReferences m f
  constructor
  · rw [filter_link_names rules h (by simp), List.filter_append, haliases, hreferences, hclasses]
    refine congrArg (· ++ _) (List.flatMap_congr fun a ha => ?_)
    exact filter_aliasProblems (aliasOpen_of_fixed (hopen f hf a ha))
  · rw [filter_link_names rules h (by simp), List.filter_append, haliases, hreferences, hdecorators]
    have hno : (f.aliases.flatMap fun a =>
        (aliasProblems (resolveAlias (resolveUses m) a)).filter (·.kind == .decoratorNotFound))
            = [] :=
      List.flatMap_eq_nil_iff.mpr fun a _ => (kinds_aliasProblems _).filter_eq_nil (by decide)
    rw [hno, List.nil_append]

end Linking

namespace Store

open Linking

variable {s : Store}

/-! ### Drafts -/

/-- **Drafts do not know what their aliases bring in.** -/
theorem Reachable.resolvedAliases_draft (h : s.Reachable) :
    ∀ f ∈ s.draftModel.files, f.resolvedAliases = [] :=
  h.forall_drafts fun hload _ => (ModelFile.resolvedAliases_of_load hload :)

/-! ### Linked stores -/

/-- **In a linked store every reference to a class or a decorator points to the first thing of its
name that its file sees.**  By name all references of a file are looked up this way, in order; in
the end the file refers to nothing else, and only choices of properties may be gone, once their
class is found.  The files seen are those that the resolved uses point to.  **Where nothing of the
name is seen, the reference is reported once**, behind what alias blocks of the file list in
vain. -/
theorem Reachable.scoping_exact (h : s.Reachable) : ∀ f ∈ s.draftModel.files,
    (∃ n ∈ (linkNames s.draftModel).model.files, n.id = f.id ∧
      fileReferences n = (fileReferences f).map (EntityReference.lookedUp s.draftModel f)) ∧
    (∃ g ∈ s.link.1.model.files, g.id = f.id ∧
      g.uses.filterMap (·.target) = (filesUsed s.draftModel f).map (·.id) ∧
      (∀ x ∈ fileReferences g, ∃ y ∈ fileReferences f, x = y.lookedUp s.draftModel f) ∧
      ∀ y ∈ fileReferences f, y.lookedUp s.draftModel f ∈ fileReferences g ∨
        ∃ p ∈ f.properties, ∃ a, p.kind = .propertyAlias a ∧ a.property = none ∧ y = .cls a.cls ∧
          (classSeen s.draftModel f a.cls.text).isSome = true) ∧
    (s.link.1.problemsOf f.id).filter (·.kind == .classNotFound)
      = f.aliases.flatMap (unlisted s.draftModel) ++ unseenClasses s.draftModel f ∧
    (s.link.1.problemsOf f.id).filter (·.kind == .decoratorNotFound)
      = unseenDecorators s.draftModel f := by
  have hm := h.drafted.asLoaded
  have hnone := h.resolvedAliases_draft
  intro f hf
  obtain ⟨hclasses, hdecorators⟩ := filter_link_unseen s.naming hm hnone hf
  refine ⟨?_, ?_, ?_, ?_⟩
  · obtain ⟨n, hn, hid, -, hrefs, -⟩ := exists_named_of_draft hm hf (hnone f hf)
    exact ⟨n, hn, hid, hrefs⟩
  · obtain ⟨g, hg, hid, huses, hfrom, hkept⟩ := exists_linked_of_draft s.naming hm hf (hnone f hf)
    have hopen : ∀ u ∈ f.uses, u.target = none := fun u hu =>
      (Reference.of_fixed ((hm.fresh f hf).uses u hu)).1
    rw [link_model]
    exact ⟨g, hg, hid, huses ▸ targets_uses s.draftModel hopen, hfrom, hkept⟩
  · rw [filter_problemsOf s rfl (by decide), hclasses]
  · rw [filter_problemsOf s rfl (by decide), hdecorators]

/-- A store with a class that is brought in by an alias and declared again in a file that is
used. -/
def seenTwice : Store :=
  loadAll {} [("A", "module: M\n---\nclass:\n name: Y"),
    ("B", "module: M\n---\nclass:\n name: Y\n---\nclass:\n name: W"),
    ("C", "module: M\nuses:\n - B\n---\nalias:\n file: A\n---\nclass:\n name: X\n extends: W\n"
      ++ " properties:\n - association: Y\n - association: V")]

/-- There the third file refers to the class that its alias brings in, and to one that it uses, and
the last reference is reported. -/
theorem scoping_exact_in_seenTwice :
    ∃ f ∈ seenTwice.draftModel.files,
      classSeen seenTwice.draftModel f "Y" = some ⟨⟨0⟩, 0⟩ ∧
      classSeen seenTwice.draftModel f "W" = some ⟨⟨1⟩, 1⟩ ∧
      ((seenTwice.link.1.problemsOf f.id).filter (·.kind == .classNotFound)).length = 1 ∧
      ∃ g ∈ seenTwice.link.1.model.files, g.id = f.id ∧
        ∀ y ∈ fileReferences f, y.lookedUp seenTwice.draftModel f ∈ fileReferences g := by
  have hdrafts : (seenTwice.draftModel.files.any fun f =>
      classSeen seenTwice.draftModel f "Y" == some ⟨⟨0⟩, 0⟩ &&
        classSeen seenTwice.draftModel f "W" == some ⟨⟨1⟩, 1⟩ &&
        (f.aliases.flatMap (unlisted seenTwice.draftModel)
          ++ unseenClasses seenTwice.draftModel f).length == 1 &&
        f.properties.all fun p => p.alias?.isNone) = true := by
    have hspelled : seenTwice = _ :=
      loadAll_eq_foldl
        (.cons String.toList_ofList
          (.cons String.toList_ofList
            (.cons (toList_append_eq String.toList_ofList String.toList_ofList) .nil)))
    rw [hspelled]
    decide +kernel
  have hreach : seenTwice.Reachable := reachable_loadAll {} _
  obtain ⟨f, hf, hfound⟩ := List.any_eq_true.mp hdrafts
  simp only [Bool.and_eq_true, beq_iff_eq, List.all_eq_true] at hfound
  obtain ⟨⟨⟨hY, hW⟩, hreports⟩, hnoAlias⟩ := hfound
  obtain ⟨-, ⟨g, hg, hid, -, -, hkept⟩, hclasses, -⟩ := Reachable.scoping_exact hreach f hf
  refine ⟨f, hf, hY, hW, by rw [hclasses, hreports], g, hg, hid, fun y hy => ?_⟩
  rcases hkept y hy with hthere | ⟨p, hp, a, hk, -⟩
  · exact hthere
  · have hnone := hnoAlias p hp
    simp [Property.alias?, hk] at hnone

end Store

end EntityModel
