import EntityModel.Diagnostics.Diagnostic
import EntityModel.Proofs.Source.Tables

/-!
# Diagnostics by file

Sorting diagnostics by their files loses none that is not suppressed, makes up none
(`Diagnostics.perm_byFile`) and keeps the order of each file (`Diagnostics.get?_byFile`).  Errors
cannot be suppressed.
-/

namespace EntityModel.Diagnostics

theorem getD_addByFile (table : DiagnosticsByFile) (d : Diagnostic) (id : FileId) :
    ((addByFile table d).get? id).getD []
      = (table.get? id).getD [] ++ if d.file = id then [d] else [] := by
  unfold addByFile
  rw [FileTable.get?_insert]
  by_cases h : id = d.file
  · subst h
    simp
  · rw [if_neg h, if_neg (fun he => h he.symm), List.append_nil]

theorem getD_foldl_addByFile (ds : List Diagnostic) (id : FileId) : ∀ table : DiagnosticsByFile,
    ((ds.foldl addByFile table).get? id).getD []
      = (table.get? id).getD [] ++ ds.filter fun d => d.file == id := by
  induction ds with
  | nil => simp
  | cons d ds ih =>
    intro table
    rw [List.foldl_cons, ih, getD_addByFile, List.append_assoc, List.filter_cons]
    by_cases h : d.file = id <;> simp [h]

/-- **The diagnostics of a file are those at its places that are not suppressed, in order.** -/
theorem get?_byFile (suppressed : List DiagnosticKind) (ds : List Diagnostic) (id : FileId) :
    ((byFile suppressed ds).get? id).getD []
      = (ds.filter fun d => !isSuppressed suppressed d).filter fun d => d.file == id := by
  unfold byFile
  rw [getD_foldl_addByFile]
  rfl

theorem isSuppressed_of_isError {suppressed : List DiagnosticKind} {d : Diagnostic}
    (h : d.isError = true) :
    isSuppressed suppressed d = false := by
  have hs : d.severity = .error := by simpa [Diagnostic.isError] using h
  simp [isSuppressed, hs]

theorem mem_byFile_of_isError {suppressed : List DiagnosticKind} {ds : List Diagnostic}
    {d : Diagnostic}
    (hd : d ∈ ds) (h : d.isError = true) : d ∈ ((byFile suppressed ds).get? d.file).getD [] := by
  rw [get?_byFile, List.mem_filter, List.mem_filter]
  exact ⟨⟨hd, by rw [isSuppressed_of_isError h]; rfl⟩, by simp⟩

theorem mem_keys_foldl_addByFile {id : FileId} (ds : List Diagnostic) :
    ∀ {table : DiagnosticsByFile},
    id ∈ FileTable.keys (ds.foldl addByFile table) → id ∈ table.keys ∨ ∃ d ∈ ds, d.file = id := by
  induction ds with
  | nil => exact fun h => Or.inl h
  | cons d ds ih =>
    intro table h
    rcases ih h with h | ⟨e, he, hfile⟩
    · obtain ⟨entry, hentry, rfl⟩ := List.mem_map.mp h
      rcases FileTable.mem_of_mem_insert hentry with rfl | hold
      · exact Or.inr ⟨d, List.mem_cons_self, rfl⟩
      · exact Or.inl (List.mem_map_of_mem hold)
    · exact Or.inr ⟨e, List.mem_cons_of_mem _ he, hfile⟩

theorem mem_keys_byFile {suppressed : List DiagnosticKind} {ds : List Diagnostic} {id : FileId}
    (h : id ∈ (byFile suppressed ds).keys) : ∃ d ∈ ds, d.file = id := by
  obtain ⟨d, hd, hfile⟩ := (mem_keys_foldl_addByFile _ h).resolve_left List.not_mem_nil
  exact ⟨d, List.mem_of_mem_filter hd, hfile⟩

/-! ### How many there are -/

theorem perm_addByFile {table : DiagnosticsByFile} (h : table.Sorted) (d : Diagnostic) :
    (addByFile table d).all.Perm (d :: table.all) := by
  unfold addByFile
  generalize d.file = id
  induction table with
  | nil => exact List.Perm.refl _
  | cons head rest ih =>
    obtain ⟨other, kept⟩ := head
    obtain ⟨hhead, hrest⟩ := List.pairwise_cons.mp h
    rw [FileTable.get?_cons, FileTable.insert]
    split
    next hlt =>
      have hne : id ≠ other := fun he => Nat.lt_irrefl other.index (he ▸ hlt)
      have hnone : FileTable.get? rest id = none := FileTable.get?_eq_none.mpr fun hk =>
        Nat.lt_asymm hlt (hhead id hk)
      rw [if_neg hne, hnone]
      exact List.Perm.refl _
    · split
      next he => exact (List.Perm.append_right _ (List.perm_append_singleton d kept))
      next hne => exact ((ih hrest).append_left kept).trans List.perm_middle

theorem perm_foldl_addByFile (ds : List Diagnostic) : ∀ {table : DiagnosticsByFile}, table.Sorted →
    (ds.foldl addByFile table).all.Perm (ds ++ table.all) := by
  induction ds with
  | nil => exact fun _ => List.Perm.refl _
  | cons d ds ih =>
    intro table h
    refine (ih (h.insert _ _)).trans ?_
    exact ((perm_addByFile h d).append_left ds).trans List.perm_middle

/-- **Sorting by files keeps every diagnostic that is not suppressed, and each once.** -/
theorem perm_byFile (suppressed : List DiagnosticKind) (ds : List Diagnostic) :
    (byFile suppressed ds).all.Perm (ds.filter fun d => !isSuppressed suppressed d) := by
  have hnil : FileTable.Sorted ([] : DiagnosticsByFile) := List.Pairwise.nil
  have hperm := perm_foldl_addByFile (ds.filter fun d => !isSuppressed suppressed d) hnil
  rwa [show DiagnosticsByFile.all [] = [] from rfl, List.append_nil] at hperm

theorem mem_of_mem_byFile {suppressed : List DiagnosticKind} {ds : List Diagnostic} {d : Diagnostic}
    (h : d ∈ (byFile suppressed ds).all) : d ∈ ds :=
  List.mem_of_mem_filter ((perm_byFile suppressed ds).mem_iff.mp h)

theorem count_byFile (suppressed : List DiagnosticKind) (ds : List Diagnostic) {k : DiagnosticKind}
    (hk : k.severity = .error) :
    (byFile suppressed ds).all.countP (·.kind == k) = ds.countP (·.kind == k) := by
  rw [(perm_byFile suppressed ds).countP_eq, List.countP_filter]
  refine List.countP_congr fun d _ => ?_
  rw [Bool.and_eq_true, and_iff_left_iff_imp, beq_iff_eq]
  intro hd
  rw [isSuppressed_of_isError (by rw [Diagnostic.isError, Diagnostic.severity, hd, hk]; rfl)]
  rfl

theorem errorCount_eq_zero {ds : List Diagnostic} :
    errorCount ds = 0 ↔ ∀ d ∈ ds, d.isError = false := by
  simp [errorCount, List.countP_eq_zero]

end EntityModel.Diagnostics
