import EntityModel.Proofs.Diagnostics.ByFile
import EntityModel.Proofs.Linking.Accounted

/-!
# References in a linked store

Whatever a file of a linked store refers to is there, or the store holds an error of that file about
it (`Reachable.references_accounted`).  The one exception are alias properties at a place where
another alias property is taken to stand; without errors there is no exception at all.
-/

namespace EntityModel.Store

open Linking

variable {s : Store}

theorem problemsOf_link (s : Store) (id : FileId) :
    s.link.1.problemsOf id
      = ((Diagnostics.byFile s.settings.suppressed s.linked.problems).get? id).getD [] := by
  rw [link_eq]
  rfl

/-- What a link finds: why files did not load, and what linking the drafts reports. -/
theorem linked_problems (s : Store) : s.linked.problems
    = s.failures.map (fun x => failureProblem x.1 x.2) ++ (s.draftModel.link s.naming).problems :=
  rfl

/-- Files that did not load are reported in a way of their own. -/
theorem filter_linked_problems (s : Store) {k : DiagnosticKind} (hload : k ≠ .invalidFile) :
    s.linked.problems.filter (·.kind == k)
      = (s.draftModel.link s.naming).problems.filter (·.kind == k) := by
  have hfailures : (s.failures.map fun x => failureProblem x.1 x.2).filter (·.kind == k) = [] := by
    rw [List.filter_eq_nil_iff]
    intro d hd
    obtain ⟨x, -, rfl⟩ := List.mem_map.mp hd
    exact fun he => hload (beq_iff_eq.mp he).symm
  rw [linked_problems, List.filter_append, hfailures, List.nil_append]

theorem filter_unsuppressed (s : Store) {k : DiagnosticKind} (hk : k.severity = .error)
    (hload : k ≠ .invalidFile) :
    (s.linked.problems.filter fun d => !Diagnostics.isSuppressed s.settings.suppressed d).filter
      (·.kind == k)
      = (s.draftModel.link s.naming).problems.filter (·.kind == k) := by
  have hkept : ∀ d : Diagnostic,
      ((d.kind == k) && !Diagnostics.isSuppressed s.settings.suppressed d)
        = (d.kind == k) := by
    intro d
    cases hd : d.kind == k with
    | false => rfl
    | true =>
      have herror : d.isError = true := by
        rw [Diagnostic.isError, Diagnostic.severity, beq_iff_eq.mp hd, hk]
        rfl
      rw [Diagnostics.isSuppressed_of_isError herror]
      rfl
  simp only [List.filter_filter, hkept]
  exact filter_linked_problems s hload

/-- **Of an error of linking, a file lists all that linking the drafts reports in it**, in order. -/
theorem filter_problemsOf (s : Store) {k : DiagnosticKind} (hk : k.severity = .error)
    (hload : k ≠ .invalidFile) (id : FileId) : (s.link.1.problemsOf id).filter (·.kind == k)
      = ((s.draftModel.link s.naming).problems.filter (·.kind == k)).filter (·.file == id) := by
  rw [← filter_unsuppressed s hk hload, problemsOf_link, Diagnostics.get?_byFile, List.filter_comm]

/-- **Of an error of linking, the store keeps all that linking the drafts reports**, file by
file. -/
theorem perm_diagnostics (s : Store) {k : DiagnosticKind} (hk : k.severity = .error)
    (hload : k ≠ .invalidFile) :
    (s.link.1.diagnostics.all.filter (·.kind == k)).Perm
      ((s.draftModel.link s.naming).problems.filter (·.kind == k)) := by
  rw [← filter_unsuppressed s hk hload, link_eq]
  exact (Diagnostics.perm_byFile _ _).filter _

theorem Reachable.numbered_link (h : s.Reachable) : s.link.1.model.Numbered := by
  rw [link_model]
  exact (sound_link s.naming h.drafted.asLoaded).numbered

theorem errors_link (s : Store) : s.link.2.errors = Diagnostics.errorCount s.linked.problems := rfl

theorem problems_subset (s : Store) : (s.draftModel.link s.naming).problems ⊆ s.linked.problems :=
  fun _ hd => List.mem_append_right _ hd

/-- What linking the drafts reports about a reference is kept with its file. -/
theorem diagnosed_problemsOf {x : HeldReference} {id : FileId}
    (h : x.Diagnosed id (s.draftModel.link s.naming).problems) :
    x.Diagnosed id (s.link.1.problemsOf id) := by
  obtain ⟨d, hd, herror, hfile, habout⟩ := h
  refine ⟨d, ?_, herror, hfile, habout⟩
  rw [problemsOf_link, ← hfile]
  exact Diagnostics.mem_byFile_of_isError (problems_subset s hd) herror

theorem no_errors_of_link (h : s.link.2.errors = 0) :
    ∀ d ∈ (s.draftModel.link s.naming).problems, d.isError = false := by
  rw [errors_link, Diagnostics.errorCount_eq_zero] at h
  exact fun d hd => h d (problems_subset s hd)

/-- **Whatever a linked file refers to is resolved or reported**, alias properties that share their
place apart; and **without errors everything is resolved** and no alias stands for a choice. -/
theorem Reachable.references_accounted (h : s.Reachable) :
    (∀ f ∈ s.link.1.model.files, ∀ x ∈ f.heldReferences,
      x.Resolved s.link.1.model ∨ x.Diagnosed f.id (s.link.1.problemsOf f.id) ∨
      x.kind = .aliasProperty ∧ ∃ l, x.enclosing = some l ∧ SharedPlace s.draftModel l) ∧
    (s.link.2.errors = 0 →
      (∀ f ∈ s.link.1.model.files, ∀ x ∈ f.heldReferences, x.Resolved s.link.1.model) ∧
      ∀ p ∈ s.link.1.model.properties, p.standsForChoice = false) := by
  have hm := h.drafted.asLoaded
  rw [link_model]
  refine ⟨fun f hf x hx => ?_, fun hnone => ⟨fun f hf x hx => ?_, fun p hp => ?_⟩⟩
  · rcases resolved_or_diagnosed hm hf hx with hr | hd | ⟨hkind, p, -, -, henclosing, hshared⟩
    · exact Or.inl hr
    · exact Or.inr (Or.inl (diagnosed_problemsOf hd))
    · exact Or.inr (Or.inr ⟨hkind, p.location, henclosing, hshared⟩)
  · exact resolved_of_no_errors hm (no_errors_of_link hnone) hf hx
  · have hclosed := closed_of_no_errors hm (no_errors_of_link hnone) hp
    rw [Bool.eq_false_iff]
    intro hs
    obtain ⟨a, hk, hchoice⟩ := Property.standsForChoice_iff.mp hs
    rw [isOpenAlias_iff.mpr ⟨a, hk, by rw [hchoice]; rfl⟩] at hclosed
    exact absurd hclosed (by simp)

def oneProperty : Store :=
  loadAll {} [("A", "module: M\n---\ndomain:\n name: D\n label: d\n"
    ++ "---\nclass:\n name: A\n comment: c\n properties:\n - name: X\n   comment: c\n   domain: D")]

/-- There linking finds no error, and so the domain of the property is there. -/
theorem references_accounted_in_oneProperty :
    oneProperty.link.2.errors = 0 ∧ oneProperty.link.1.model.files.length = 1 ∧
      ∀ f ∈ oneProperty.link.1.model.files, ∀ x ∈ f.heldReferences,
      x.Resolved oneProperty.link.1.model := by
  have hnone : oneProperty.link.2.errors = 0 ∧ oneProperty.link.1.model.files.length = 1 := by
    have hspelled : oneProperty = _ :=
      loadAll_eq_foldl (.cons (toList_append_eq String.toList_ofList String.toList_ofList) .nil)
    rw [hspelled]
    decide +kernel
  have hreach : oneProperty.Reachable := reachable_loadAll {} _
  exact ⟨hnone.1, hnone.2, ((Reachable.references_accounted hreach).2 hnone.1).1⟩

end EntityModel.Store
