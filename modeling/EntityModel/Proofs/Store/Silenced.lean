import EntityModel.Proofs.Store.Diagnosed

/-!
# Silenced warnings

Settings may list the codes of warnings that nobody wants to see.  Linking itself does not look at
the list: the linked files, the report and what is found are the same with any other
(`Store.linked_of_silencedApart`), and only the diagnostics that the store keeps are without the
listed warnings.  The report is made before and the kept diagnostics after that, but as no error is
ever silenced both tell the same of errors (`Store.publishes_link`).
-/

namespace EntityModel

namespace DiagnosticKind

theorem mem_all (k : DiagnosticKind) : k ∈ all := by cases k <;> decide

/-- No two kinds have one code. -/
theorem code_injective : Function.Injective code := fun j k h =>
  List.inj_on_of_nodup_map (l := all) (by decide +kernel) (mem_all j) (mem_all k) h

end DiagnosticKind

def Diagnostic.SilencedBy (kinds : List DiagnosticKind) (d : Diagnostic) : Prop :=
  d.severity = .warning ∧ d.kind.code ∈ kinds.map DiagnosticKind.code

instance (kinds : List DiagnosticKind) (d : Diagnostic) : Decidable (d.SilencedBy kinds) :=
  inferInstanceAs (Decidable (_ ∧ _))

namespace Diagnostics

theorem isSuppressed_iff {kinds : List DiagnosticKind} {d : Diagnostic} :
    isSuppressed kinds d = true ↔ d.SilencedBy kinds := by
  unfold isSuppressed Diagnostic.SilencedBy
  rw [Bool.and_eq_true, beq_iff_eq, List.contains_iff_mem,
    List.mem_map_of_injective DiagnosticKind.code_injective]

theorem sorted_foldl_addByFile (ds : List Diagnostic) :
    ∀ {table : DiagnosticsByFile}, table.Sorted →
    (ds.foldl addByFile table).Sorted := by
  induction ds with
  | nil => exact fun h => h
  | cons d ds ih => exact fun h => ih (h.insert _ _)

theorem sorted_byFile (suppressed : List DiagnosticKind) (ds : List Diagnostic) :
    (byFile suppressed ds).Sorted :=
  sorted_foldl_addByFile _ List.Pairwise.nil

theorem isSome_get?_byFile {suppressed : List DiagnosticKind} {ds : List Diagnostic} {id : FileId} :
    ((byFile suppressed ds).get? id).isSome = true ↔
    ((byFile suppressed ds).get? id).getD [] ≠ [] := by
  cases hlisted : (byFile suppressed ds).get? id with
  | none => simp
  | some listed =>
    have hkey : id ∈ (byFile suppressed ds).keys :=
      List.mem_map_of_mem (f := Prod.fst) (FileTable.mem_of_get? hlisted)
    obtain ⟨d, hd, hfile⟩ := (mem_keys_foldl_addByFile _ hkey).resolve_left List.not_mem_nil
    have hlist := get?_byFile suppressed ds id
    rw [hlisted, Option.getD_some] at hlist
    have hmem : d ∈ listed := hlist ▸ List.mem_filter.mpr ⟨hd, beq_iff_eq.mpr hfile⟩
    simpa using List.ne_nil_of_mem hmem

theorem errorCount_byFile (suppressed : List DiagnosticKind) (ds : List Diagnostic) :
    errorCount (byFile suppressed ds).all = errorCount ds := by
  unfold errorCount
  rw [(perm_byFile suppressed ds).countP_eq, List.countP_filter]
  refine List.countP_congr fun d _ => ?_
  rw [Bool.and_eq_true, and_iff_left_iff_imp]
  intro hd
  rw [isSuppressed_of_isError hd]
  rfl

end Diagnostics

namespace Store

variable {s t : Store}

/-- The two stores hold the same files and failures, and their settings differ in nothing but the
silenced warnings. -/
structure SilencedApart (s t : Store) : Prop where
  drafts : s.drafts = t.drafts
  failures : s.failures = t.failures
  settings : ∃ suppressed, { s.settings with suppressed } = t.settings

def foundIn (s : Store) (id : FileId) : List Diagnostic := s.linked.problems.filter (·.file = id)

/-- What the store keeps after a link is what the link finds without the silenced warnings, file by
file. -/
structure Publishes (s : Store) : Prop where
  /-- A file comes once, and files come in the order of their ids. -/
  sorted : s.link.1.diagnostics.Sorted
  /-- In each file the order of discovery is kept. -/
  listed : ∀ id, s.link.1.problemsOf id
    = (s.foundIn id).filter (¬ ·.SilencedBy s.settings.suppressed)
  /-- Files of which nothing is kept are not listed. -/
  files : ∀ id, (s.link.1.diagnostics.get? id).isSome = true ↔ s.link.1.problemsOf id ≠ []
  ok : s.link.2.isOk = true ↔ s.link.1.hasErrors = false
  errors : s.link.2.errors = s.link.1.diagnostics.all.countP (·.severity = .error)

/-- What a link finds does not depend on the silenced warnings. -/
theorem linked_of_silencedApart (h : SilencedApart s t) : s.linked = t.linked := by
  obtain ⟨suppressed, hsettings⟩ := h.settings
  have hnaming : s.naming = t.naming := by rw [naming, naming, ← hsettings]
  unfold linked
  rw [h.drafts, h.failures, hnaming]

theorem report_eq (s : Store) : s.link.2 =
    { files := s.linked.model.files.length
      classes := s.linked.model.classes.length
      errors := Diagnostics.errorCount s.linked.problems
      warnings := Diagnostics.warningCount s.linked.problems } := rfl

theorem errors_link_eq (s : Store) :
    s.link.2.errors = Diagnostics.errorCount s.link.1.diagnostics.all :=
  (Diagnostics.errorCount_byFile _ _).symm

theorem publishes_link (s : Store) : s.Publishes where
  sorted := Diagnostics.sorted_byFile _ _
  listed id := by
    rw [problemsOf_link, Diagnostics.get?_byFile, List.filter_comm, foundIn]
    refine List.filter_congr fun d _ => ?_
    rw [Bool.eq_iff_iff, Bool.not_eq_true', ← Bool.not_eq_true, Diagnostics.isSuppressed_iff,
      decide_eq_true_iff]
  files id := Diagnostics.isSome_get?_byFile
  ok := by
    rw [LinkReport.isOk, beq_iff_eq, errors_link_eq, Diagnostics.errorCount_eq_zero, hasErrors,
      List.any_eq_false]
    simp only [Bool.not_eq_true]
  errors := errors_link_eq s

/-- **Silencing warnings only hides them.**  For two stores that differ in the silenced warnings
alone, a link gives the same files and the same report and finds the same, and each of them keeps
all that is found but the warnings that it silences; so the report is fine just if no error is kept,
and it counts the errors that are kept. -/
theorem link_silenced (h : SilencedApart s t) :
    s.link.1.model = t.link.1.model ∧ s.link.2 = t.link.2 ∧ s.linked.problems = t.linked.problems
      ∧ s.Publishes ∧ t.Publishes := by
  have hlinked := linked_of_silencedApart h
  have hmodel : s.link.1.model = t.link.1.model := congrArg Linked.model hlinked
  have hreport : s.link.2 = t.link.2 := by rw [report_eq, report_eq, hlinked]
  exact ⟨hmodel, hreport, congrArg Linked.problems hlinked, publishes_link s, publishes_link t⟩

/-- A store with a domain that is not used and a class whose base is not there. -/
def unusedAndMissing (suppressed : List DiagnosticKind) : Store where
  settings := { suppressed }
  drafts := (loadAll {} [("A", "module: M\n---\ndomain:\n name: D\n label: d\n"
    ++ "---\nclass:\n name: A\n comment: c\n extends: B")]).drafts

/-- There the warning is hidden where it is listed, the error is not, though it is listed too, and
both are counted in either report. -/
theorem link_silenced_in_unusedAndMissing :
    SilencedApart (unusedAndMissing []) (unusedAndMissing [.unusedDomain, .classNotFound]) ∧
      ((unusedAndMissing []).link.1.problemsOf ⟨0⟩).map Diagnostic.kind
        = [.classNotFound, .unusedDomain] ∧
      ((unusedAndMissing [.unusedDomain, .classNotFound]).link.1.problemsOf ⟨0⟩).map Diagnostic.kind
        = [.classNotFound] ∧
      (unusedAndMissing []).link.2 = (unusedAndMissing [.unusedDomain, .classNotFound]).link.2 := by
  have hapart : SilencedApart (unusedAndMissing [])
      (unusedAndMissing [.unusedDomain, .classNotFound]) :=
    ⟨rfl, rfl, [.unusedDomain, .classNotFound], rfl⟩
  have hkept : ((unusedAndMissing []).link.1.problemsOf ⟨0⟩).map Diagnostic.kind
      = [.classNotFound, .unusedDomain] ∧
      ((unusedAndMissing [.unusedDomain, .classNotFound]).link.1.problemsOf ⟨0⟩).map Diagnostic.kind
        = [.classNotFound] := by
    unfold unusedAndMissing
    rw [loadAll_eq_foldl (.cons (toList_append_eq String.toList_ofList String.toList_ofList) .nil)]
    decide +kernel
  exact ⟨hapart, hkept.1, hkept.2, (link_silenced hapart).2.1⟩

end Store

end EntityModel
