import EntityModel.Generation.LockFile
import EntityModel.Proofs.Disk.Changes

/-!
# What pruning deletes

An entry of a lock file is free text, and what decides that it is stale is its text alone.  A file
is deleted for it only if the path that the entry stands for is written down as that very entry.
The entry of a path hangs on its normal form (`Path.relativeName_congr`), so a path with the normal
form of an output of the run is written as an entry of the new lock, and that one is not stale.
Hence pruning deletes no output of the run, and nothing but files that stale entries stand for
(`prune_safe`).
-/

namespace EntityModel

namespace Path

theorem relativeName_congr (root : Path) {p q : Path} (h : p.normalize = q.normalize) :
    root.relativeName p = root.relativeName q := by
  unfold relativeName
  rw [h]

theorem relativeName_of_resolveEntry {root p : Path} {entry : String}
    (h : root.resolveEntry entry = some p) : root.relativeName p = entry := by
  unfold resolveEntry at h
  simp only [Option.ite_none_left_eq_some, Bool.or_eq_true, bne_iff_ne, not_or, not_not] at h
  obtain ⟨⟨-, hname⟩, hp⟩ := h
  rw [← Option.some.inj hp]
  exact hname

end Path

namespace LockFile

variable {root : Path} {generated : List Path} {d : Disk}

/-! ### Entries -/

theorem mem_dropRepeated (names : List String) (name : String) :
    name ∈ dropRepeated names ↔ name ∈ names := by
  fun_induction dropRepeated names with
  | case1 a b rest he ih =>
    rw [ih, beq_iff_eq.mp he]
    simp
  | case2 a b rest hne ih => rw [List.mem_cons, ih, List.mem_cons (l := b :: rest)]
  | case3 => rfl

/-- **A lock lists the names of the outputs**, and no others. -/
theorem mem_files_ofPaths {name : String} :
    name ∈ (ofPaths root generated).files ↔ ∃ g ∈ generated, root.relativeName g = name := by
  show name ∈ dropRepeated _ ↔ _
  rw [mem_dropRepeated, List.mem_mergeSort, List.mem_map]

theorem mem_staleFiles {lock previous : LockFile} {entry : String} :
    entry ∈ lock.staleFiles previous ↔ entry ∈ previous.files ∧ entry ∉ lock.files := by
  simp [staleFiles]

/-- **What a stale entry stands for is no output.** -/
theorem normalize_ne_of_stale {previous : LockFile} {entry : String} {p : Path}
    (h : entry ∈ (ofPaths root generated).staleFiles previous)
    (hp : root.resolveEntry entry = some p) :
    ∀ g ∈ generated, g.normalize ≠ p.normalize := by
  intro g hg he
  refine (mem_staleFiles.mp h).2 (mem_files_ofPaths.mpr ⟨g, hg, ?_⟩)
  rw [Path.relativeName_congr root he]
  exact Path.relativeName_of_resolveEntry hp

/-! ### Deleting -/

/-- The file that the path leads to on the first disk is gone from the second. -/
def Gone (d d' : Disk) (p : Path) : Prop :=
  ∃ place content, d.locate p = .ok place ∧ d.node? place = some (.file content) ∧
    d'.node? place = none

/-- How far pruning the entries has come from the disk `d`: the paths deleted are those of entries,
their files are gone, and what no deleted path leads to is as it was. -/
structure Pruned (root : Path) (entries : List String) (d : Disk) (p : Pruning) : Prop where
  entry : ∀ path ∈ p.deleted, ∃ entry ∈ entries, root.resolveEntry entry = some path
  gone : ∀ path ∈ p.deleted, Gone d p.disk path
  kept : ∀ place, (∀ path ∈ p.deleted, d.locate path ≠ .ok place) →
    p.disk.node? place = d.node? place

variable {entries : List String} {p : Pruning}

theorem Pruned.start (root : Path) (entries : List String) (d : Disk) :
    Pruned root entries d { disk := d } where
  entry := by simp
  gone := by simp
  kept _ _ := rfl

theorem Pruned.node? (h : Pruned root entries d p) {place : Place} {node : DiskNode}
    (hn : p.disk.node? place = some node) : d.node? place = some node := by
  rw [← hn]
  refine (h.kept place fun path hpath hplace => ?_).symm
  obtain ⟨place', content, hl, -, hnone⟩ := h.gone path hpath
  rw [hplace] at hl
  rw [Except.ok.inj hl, hnone] at hn
  exact absurd hn (by simp)

/-- One entry changes nothing, or the file that it stands for is deleted. -/
theorem pruneEntry_cases (root : Path) (p : Pruning) (entry : String) :
    (pruneEntry root p entry).1 = p ∨
      ∃ path disk, root.resolveEntry entry = some path ∧ p.disk.delete path = .ok disk ∧
        (pruneEntry root p entry).1 = { disk, deleted := p.deleted ++ [path] } := by
  unfold pruneEntry
  cases hpath : root.resolveEntry entry with
  | none => exact Or.inl rfl
  | some path =>
    cases hdelete : p.disk.delete path with
    | ok disk => exact Or.inr ⟨path, disk, rfl, hdelete, by simp only [hdelete]⟩
    | error e => cases e <;> exact Or.inl (by simp only [hdelete])

/-- **One entry deletes its own file at most.** -/
theorem Pruned.pruneEntry (h : Pruned root entries d p) {entry : String}
    (hentry : entry ∈ entries) :
    Pruned root entries d (pruneEntry root p entry).1 := by
  rcases pruneEntry_cases root p entry with he | ⟨path, disk, hpath, hdelete, he⟩
  · rw [he]
    exact h
  rw [he]
  obtain ⟨place, content, hl, hn, rfl⟩ := Disk.delete_eq_ok hdelete
  have hl' : d.locate path = .ok place := Disk.locate_of_fewer (fun _ hd => h.node? hd) hl
  have hremove := Disk.node?_remove (d := p.disk) (Disk.ne_nil_of_file hn)
  refine ⟨fun q hq => ?_, fun q hq => ?_, fun at' hat => ?_⟩
  · rcases List.mem_append.mp hq with hq | hq
    · exact h.entry q hq
    · exact ⟨entry, hentry, List.mem_singleton.mp hq ▸ hpath⟩
  · rcases List.mem_append.mp hq with hq | hq
    · obtain ⟨place', content', hlq, hnq, hnone⟩ := h.gone q hq
      exact ⟨place', content', hlq, hnq, by rw [hremove, hnone, ite_self]⟩
    · rw [List.mem_singleton.mp hq]
      exact ⟨place, content, hl', h.node? hn, by rw [hremove, if_pos rfl]⟩
  · have hne : at' ≠ place := by
      rintro rfl
      exact hat path (by simp) hl'
    rw [hremove, if_neg hne]
    exact h.kept at' fun q hq => hat q (List.mem_append_left _ hq)

theorem Pruned.pruneEntries (rest : List String) : ∀ {p : Pruning}, Pruned root entries d p →
    (∀ entry ∈ rest, entry ∈ entries) → Pruned root entries d (pruneEntries root p rest).1 := by
  induction rest with
  | nil => exact fun h _ => h
  | cons entry rest ih =>
    intro p h hrest
    have hstep := h.pruneEntry (hrest entry List.mem_cons_self)
    unfold LockFile.pruneEntries
    cases hone : LockFile.pruneEntry root p entry with
    | mk p' outcome =>
      rw [hone] at hstep
      cases outcome with
      | error e => exact hstep
      | ok _ => exact ih hstep fun other hother => hrest other (List.mem_cons_of_mem _ hother)

/-- **Whatever pruning deletes is the file of an entry of the earlier lock that is not in the new
one, is written down as that entry, and is no output of the run; and pruning does nothing else**: a
place that no deleted path leads to holds what it held. -/
theorem prune_safe (root : Path) (generated : List Path) (previous : LockFile) (d : Disk) :
    (∀ p ∈ ((ofPaths root generated).prune previous root d).1.deleted,
      (∃ entry ∈ previous.files, entry ∉ (ofPaths root generated).files ∧
        root.resolveEntry entry = some p ∧ root.relativeName p = entry) ∧
      (∀ g ∈ generated, g.normalize ≠ p.normalize) ∧
      Gone d ((ofPaths root generated).prune previous root d).1.disk p) ∧
    ∀ place, (∀ p ∈ ((ofPaths root generated).prune previous root d).1.deleted,
      d.locate p ≠ .ok place) →
      ((ofPaths root generated).prune previous root d).1.disk.node? place = d.node? place := by
  have h : Pruned root ((ofPaths root generated).staleFiles previous) d
      ((ofPaths root generated).prune previous root d).1 :=
    (Pruned.start root _ d).pruneEntries _ fun _ he => he
  refine ⟨fun p hp => ?_, h.kept⟩
  obtain ⟨entry, hstale, hentry⟩ := h.entry p hp
  obtain ⟨hprevious, hnew⟩ := mem_staleFiles.mp hstale
  exact ⟨⟨entry, hprevious, hnew, hentry, Path.relativeName_of_resolveEntry hentry⟩,
    normalize_ne_of_stale hstale hentry, h.gone p hp⟩

end LockFile

end EntityModel
