import EntityModel.Proofs.Generation.Selections
import EntityModel.Proofs.Watching.Sessions

/-!
# What an event renders

A host that has linked a clean model tells its watchers of the files that the pending ones touch,
and a watcher that runs a generator renders these and no others, if there are any.  Where every
pending file is gone, which is so when a file without dependents is left blank, the watchers are
told of no file at all; and to a run no files stand for all files, so then the whole model is
rendered (`Host.rendered_from_affected`).
-/

namespace EntityModel

open Relation (ReflTransGen)
open Linking

namespace Generator

variable {g : Generator} {s : Store} {ids : List FileId}

def outputs (g : Generator) (s : Store) (ids : List FileId) : List Output :=
  (g.run s ids).toOption.getD []

theorem disk_watcher (g : Generator) (s : Store) (ids : List FileId) (kept : PathSet)
    (disk : Disk) :
    (g.watcher.onFilesChanged s ids kept disk).2.1
      = (Output.writeAll disk (g.outputs s ids)).1 := by
  simp only [watcher, outputs]
  cases g.run s ids with
  | error e => rfl
  | ok outputs =>
    show _ = (Output.writeAll disk outputs).1
    dsimp only
    rcases Output.writeAll disk outputs with ⟨written, _ | _⟩ <;> rfl

theorem file_of_outputs (hids : ids ≠ []) {o : Output} (ho : o ∈ g.outputs s ids) :
    o.file ∈ ids := by
  unfold outputs at ho
  cases hrun : g.run s ids with
  | error e => simp [hrun, Except.toOption] at ho
  | ok outputs =>
    rw [hrun] at ho
    obtain ⟨j, hj, hmake⟩ := (mem_of_run hrun).mp ⟨ho, Path.same_iff.mpr rfl⟩
    have hmem := (of_firstJob hj).2.1
    rw [chosen, if_neg (by simpa using hids)] at hmem
    obtain ⟨id, hid, hfile⟩ := List.mem_filterMap.mp hmem
    rw [(of_make hmake).2, (Model.mem_of_file? hfile).2]
    exact hid

/-- A run over no files is a run over all. -/
theorem run_nil (hids : (s.model.files.map (·.id)).Nodup) :
    g.run s [] = g.run s (s.model.files.map (·.id)) := by
  have hall : (s.model.files.map (·.id)).filterMap s.model.file? = s.model.files := by
    rw [List.filterMap_map]
    calc s.model.files.filterMap (s.model.file? ∘ (·.id))
        = s.model.files.filterMap some :=
        List.filterMap_congr fun f hf => Model.file?_of_mem hids hf
      _ = s.model.files := List.filterMap_some
  have hselected : g.selected s [] = g.selected s (s.model.files.map (·.id)) := by
    unfold selected
    rw [hall, ite_self]
    rfl
  rw [run, run, hselected]

end Generator

namespace Host

variable {σ : Type} {h : Host σ} {b : Backlog} {t : Turn σ} {c : Command}

/-! ### Commands without a turn -/

theorem idle_of_no_turn (hrun : c ≠ .run) (ht : h.turn? b c = none) :
    (h.obey c).1.watchers = h.watchers ∧
    ((∀ disk, c ≠ .edit disk) → (h.obey c).1.disk = h.disk) := by
  cases c with
  | run => exact absurd rfl hrun
  | edit disk => exact ⟨rfl, fun hedit => absurd rfl (hedit disk)⟩
  | startWatch =>
    show h.startWatch.1.watchers = _ ∧ (_ → h.startWatch.1.disk = _)
    simp only [turn?] at ht
    rw [startWatch_eq]
    rcases hload : Workspace.loadAll .collect h.store h.disk with ⟨store, e | n⟩
    · exact ⟨rfl, fun _ => rfl⟩
    · rw [hload] at ht
      cases ht
  | changed path =>
    show (h.fileChanged path).1.watchers = _ ∧ (_ → (h.fileChanged path).1.disk = _)
    simp only [turn?] at ht
    cases hname : Workspace.fileName? h.store.settings path with
    | none =>
      unfold fileChanged
      rw [hname]
      exact ⟨rfl, fun _ => rfl⟩
    | some name =>
      rw [fileChanged_eq h path hname]
      rw [hname] at ht
      rcases hload : Workspace.loadOne h.mode h.store h.disk path with ⟨store, e | _⟩
      · exact ⟨rfl, fun _ => rfl⟩
      · rw [hload] at ht
        cases ht
  | removed path =>
    show (h.fileRemoved path).1.watchers = _ ∧ (_ → (h.fileRemoved path).1.disk = _)
    simp only [turn?] at ht
    cases hid : (Workspace.fileName? h.store.settings path).bind h.store.registry.get? with
    | none =>
      unfold fileRemoved
      rw [hid]
      exact ⟨rfl, fun _ => rfl⟩
    | some id =>
      rw [hid] at ht
      cases ht

/-! ### Turns -/

theorem reachable_of_turn? (hs : h.store.Reachable) (ht : h.turn? b c = some t) :
    t.ready.store.Reachable := by
  rcases turn?_cases ht with ⟨-, store, n, hload, rfl⟩ | ⟨path, name, store, -, -, hload, rfl⟩ |
    ⟨path, id, -, -, rfl⟩
  · have hloaded := hs.loadAll .collect h.disk
    rw [hload] at hloaded
    exact hloaded
  · have hloaded := hs.loadOne h.mode h.disk path
    rw [hload] at hloaded
    exact hloaded.intern name
  · exact hs.remove id

theorem disk_of_turn? (ht : h.turn? b c = some t) : t.linked.disk = h.disk := by
  rcases turn?_cases ht with ⟨-, store, n, -, rfl⟩ | ⟨path, name, store, -, -, -, rfl⟩ |
    ⟨path, id, -, -, rfl⟩ <;> rfl

/-- **Nothing is touched just where everything pending is gone**: what depends on a file depends on
one that is there. -/
theorem affected_eq_nil_iff (hs : t.ready.store.Reachable) :
    t.linked.affected = [] ↔ ∀ a ∈ t.linked.pending, a ∉ t.ready.store.drafts.keys := by
  have hmem : ∀ a, a ∈ t.linked.affected ↔ (∃ p ∈ t.linked.pending,
      ReflTransGen t.ready.store.link.1.model.DependsOn a p) ∧
      (t.ready.store.link.1.model.file? a).isSome = true := by
    intro a
    rw [affected, mem_idSet, List.mem_filter, List.mem_flatMap, store_linked]
    simp only [Model.mem_withDependents hs.nodup_files]
  rw [List.eq_nil_iff_forall_not_mem]
  constructor
  · intro hnone a ha hloaded
    exact hnone a ((hmem a).mpr ⟨⟨a, ha, .refl⟩, hs.isSome_file? hloaded⟩)
  · intro hgone a ha
    obtain ⟨⟨p, hp, hpath⟩, hthere⟩ := (hmem a).mp ha
    refine hgone p hp ?_
    rcases ReflTransGen.cases_tail hpath with rfl | ⟨q, -, hdep⟩
    · exact hs.loaded_of_file? hthere
    · exact hs.loaded_of_dependsOn hdep

/-- What a watcher that runs the generator does in a turn, when it is told of the files that the
pending ones touch: it writes the outputs of a run over these.  All of them are made from these
files, if there are any; if there are none, they are the outputs for all files. -/
structure Renders (t : Turn σ) (g : Generator) : Prop where
  written : ∀ (get : σ → PathSet) (set : PathSet → σ → σ) (kept : σ) (disk : Disk),
    ((g.watcher.within get set).onFilesChanged t.linked.store t.linked.affected kept disk).2.1
      = (Output.writeAll disk (g.outputs t.linked.store t.linked.affected)).1
  named : t.linked.affected ≠ [] →
    ∀ o ∈ g.outputs t.linked.store t.linked.affected, o.file ∈ t.linked.affected
  everything : t.linked.affected = [] → g.outputs t.linked.store t.linked.affected
    = g.outputs t.linked.store (t.linked.store.model.files.map (·.id))

theorem renders_of_reachable (hs : t.ready.store.Reachable) (g : Generator) : Renders t g where
  written _ _ _ disk := g.disk_watcher _ _ _ disk
  named hsome _ ho := Generator.file_of_outputs hsome ho
  everything hnone := by
    rw [hnone, Generator.outputs, Generator.outputs, Generator.run_nil]
    rw [store_linked]
    exact hs.nodup_files

/-- **An event renders what the watchers are told of, or everything.**  However a session has gone
on, an event that does not make the host link again tells nobody and leaves the disk as it was, and
so does a turn whose link has an error, or after which nothing is pending.  Any other turn tells the
watchers in order, up to the first that fails, of the files that the pending ones touch, and what a
generator makes is made from these (`Renders`), unless there are none; and there are none exactly if
everything pending is gone. -/
theorem rendered_from_affected (settings : Settings) (disk : Disk) (watchers : List (Watcher σ × σ))
    (before : List Command) (c : Command) (hrun : c ≠ .run) :
    ∀ h, h = (new settings disk watchers).obeyAll before →
      (h.turn? {} c = none →
        (h.obey c).1.watchers = h.watchers ∧ ((∀ d, c ≠ .edit d) → (h.obey c).1.disk = h.disk)) ∧
      ∀ t, h.turn? {} c = some t → t.linked.disk = h.disk ∧
        (t.isClean = false → h.obey c = (t.linked, .ok ())) ∧
        (t.isClean = true →
          (∃ outcome, Told t.linked.store t.linked.affected t.linked.watchers
            t.linked.disk outcome ∧
            (h.obey c).1.watchers = outcome.1 ∧ (h.obey c).1.disk = outcome.2.1) ∧
          (∀ g, Renders t g) ∧
          (t.linked.affected = [] ↔ ∀ a ∈ t.linked.pending, a ∉ t.ready.store.drafts.keys)) := by
  rintro h rfl
  have hs := reachable_obeyAll before (h := new settings disk watchers) (.new settings)
  refine ⟨idle_of_no_turn hrun, fun t ht => ⟨disk_of_turn? ht, fun hclean => ?_, fun hclean => ?_⟩⟩
  · rw [obey_of_turn? ht, relink_of_not_clean hclean]
  · have hready := reachable_of_turn? hs ht
    obtain ⟨outcome, htold, hrelink⟩ := relink_of_clean hclean
    refine ⟨⟨outcome, htold, ?_⟩, renders_of_reachable hready, affected_eq_nil_iff hready⟩
    rw [obey_of_turn? ht, hrelink]
    exact ⟨rfl, rfl⟩

def byTag : Generator where
  name := "byTag"
  tags := ["t"]
  outputPath _ f _ := some ⟨f.name ++ ".txt"⟩
  render _ f _ := .ok f.name

def taggedNode : Place × DiskNode :=
  (["A.tmd"], .file (.text "module: M\ntags: [t]\n---\nclass:\n name: A\n comment: c"))

/-- A session with a tagged file, to which a blank one comes while the output is deleted. -/
def blanked : Host PathSet :=
  (new {} ⟨[taggedNode]⟩ [(byTag.watcher.within id fun part _ => part, [])]).obeyAll
    [.startWatch, .edit ⟨[taggedNode, (["B.tmd"], .file (.text ""))]⟩]

/-- When the host is told of the blank file, it tells the watcher of no file, and the output of the
other file, which has not changed, is written again. -/
theorem rendered_from_affected_of_blanked :
    blanked.disk.node? ["A.txt"] = none ∧
      (blanked.obey (.changed ⟨"./B.tmd"⟩)).1.disk.node? ["A.txt"] = some (.file (.text "A")) ∧
      ∃ t, blanked.turn? {} (.changed ⟨"./B.tmd"⟩) = some t ∧ t.isClean = true ∧
        (∀ a ∈ t.linked.pending, a ∉ t.ready.store.drafts.keys) ∧
        (∃ outcome, Told t.linked.store [] t.linked.watchers t.linked.disk outcome ∧
          (blanked.obey (.changed ⟨"./B.tmd"⟩)).1.disk = outcome.2.1) ∧
        byTag.outputs t.linked.store [] = [⟨⟨"A.txt"⟩, "A", ⟨0⟩, "t"⟩] := by
  have hfacts : (blanked.disk.node? ["A.txt"] = none ∧
      (blanked.obey (.changed ⟨"./B.tmd"⟩)).1.disk.node? ["A.txt"] = some (.file (.text "A"))) ∧
      ((blanked.turn? {} (.changed ⟨"./B.tmd"⟩)).any fun t => t.isClean
        && (t.linked.affected.isEmpty &&
        byTag.outputs t.linked.store (t.linked.store.model.files.map (·.id))
          == [⟨⟨"A.txt"⟩, "A", ⟨0⟩, "t"⟩])) = true := by
    decide +kernel
  obtain ⟨⟨hbefore, hafter⟩, hturn⟩ := hfacts
  obtain ⟨t, ht, hfound⟩ := (Option.any_eq_true _ _).mp hturn
  simp only [Bool.and_eq_true, List.isEmpty_iff, beq_iff_eq] at hfound
  obtain ⟨hclean, hnone, houtputs⟩ := hfound
  obtain ⟨-, -, htold⟩ := (rendered_from_affected {} ⟨[taggedNode]⟩
    [(byTag.watcher.within id fun part _ => part, [])] [.startWatch,
      .edit ⟨[taggedNode, (["B.tmd"], .file (.text ""))]⟩]
    (.changed ⟨"./B.tmd"⟩) (by simp) blanked rfl).2 t ht
  obtain ⟨⟨outcome, htold, -, hdisk⟩, hrenders, hiff⟩ := htold hclean
  rw [hnone] at htold
  have hall := (hrenders byTag).everything hnone
  rw [hnone, houtputs] at hall
  exact ⟨hbefore, hafter, t, ht, hclean, hiff.mp hnone, ⟨outcome, htold, hdisk⟩, hall⟩

end Host

end EntityModel
