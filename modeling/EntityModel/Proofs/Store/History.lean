import EntityModel.Proofs.Diagnostics.ByFile
import EntityModel.Proofs.Linking.ReportPlaces
import EntityModel.Proofs.Store.Reachable

/-!
# What a store keeps of its history

Whatever was loaded, failed, mended, removed or linked on the way, a store holds under each id what
the last call that changed it left there (`held_performAll`).  So calls that mention the same names
in the same order and leave the same under each id end in the same link, and between calls nothing
is both loaded and failed, the diagnostics are of files that are there, and linking a store again
that is not dirty changes nothing (`history_independent`).
-/

namespace EntityModel

/-- What a store holds under an id: nothing, a file, or the error of a file that did not load. -/
inductive Condition
  | absent
  | loaded (file : ModelFile)
  | failed (error : Source.LoadError)

namespace Store

inductive Call
  | intern (name : String)
  | load (name source : String)
  | fail (id : FileId) (error : Source.LoadError)
  | remove (id : FileId)
  | link

def Call.perform (s : Store) : Call → Store
  | .intern name => (s.intern name).1
  | .load name source => (s.loadFile name source).1
  | .fail id error => s.setFailure id error
  | .remove id => s.removeFile id
  | .link => s.link.1

def Call.name? : Call → Option String
  | .intern name | .load name _ => some name
  | .fail _ _ | .remove _ | .link => none

/-- What a call leaves under an id, if it changes anything there: a text is put under the id that
its name has among these, unless it does not load. -/
def Call.effect (settings : Settings) (names : List String) (id : FileId) : Call → Option Condition
  | .load name source =>
    if names[id.index]? = some name then
      match ModelFile.load id name source settings.app settings.naming with
      | .ok (some file) => some (.loaded file)
      | .ok none => some .absent
      | .error _ => none
    else none
  | .fail other error => if id = other then some (.failed error) else none
  | .remove other => if id = other then some .absent else none
  | .intern _ | .link => none

def performAll (settings : Settings) (calls : List Call) : Store :=
  calls.foldl Call.perform { settings }

def mentioned (calls : List Call) : List String := firstOccurrences (calls.filterMap Call.name?)

/-- What the last call that changed it left under an id. -/
def condition (settings : Settings) (calls : List Call) (id : FileId) : Condition :=
  ((calls.filterMap (·.effect settings (mentioned calls) id)).getLast?).getD .absent

def held (s : Store) (id : FileId) : Condition :=
  match s.drafts.get? id, s.failures.get? id with
  | some file, _ => .loaded file
  | none, some error => .failed error
  | none, none => .absent

variable {s s' : Store} {settings : Settings} {calls calls' : List Call} {id : FileId}

theorem performAll_concat (settings : Settings) (calls : List Call) (c : Call) :
    performAll settings (calls ++ [c]) = c.perform (performAll settings calls) := by
  rw [performAll, List.foldl_append]
  rfl

theorem reachable_performAll (settings : Settings) (calls : List Call) :
    (performAll settings calls).Reachable := by
  induction calls using List.reverseRecOn with
  | nil => exact .new settings
  | append_singleton calls c ih =>
    rw [performAll_concat]
    cases c with
    | intern name => exact .intern ih name
    | load name source => exact .load ih name source
    | fail id error => exact .fail ih id error
    | remove id => exact .remove ih id
    | link => exact .link ih

/-! ### What a call leaves -/

theorem putLoaded_fixed (s : Store) (id : FileId) (file : Option ModelFile) :
    (s.putLoaded id file).settings = s.settings ∧ (s.putLoaded id file).registry = s.registry := by
  cases file <;> exact ⟨rfl, rfl⟩

/-- Loading a text interns its name and leaves the settings alone. -/
theorem loadFile_fixed (s : Store) (name source : String) :
    (s.loadFile name source).1.settings = s.settings ∧
      (s.loadFile name source).1.registry = (s.registry.intern name).1 := by
  rw [loadFile_eq]
  cases ModelFile.load (s.intern name).2 name source s.settings.app s.naming with
  | error e => exact ⟨rfl, rfl⟩
  | ok file => exact putLoaded_fixed _ _ file

theorem settings_perform (s : Store) (c : Call) : (c.perform s).settings = s.settings := by
  cases c with
  | load name source => rw [Call.perform, (loadFile_fixed s name source).1]
  | link => rw [Call.perform, link_eq]
  | _ => rfl

theorem registry_perform (s : Store) (c : Call) :
    (c.perform s).registry = match c.name? with
      | some name => (s.registry.intern name).1
      | none => s.registry := by
  cases c with
  | load name source => rw [Call.perform, (loadFile_fixed s name source).2, Call.name?]
  | link => rw [Call.perform, link_eq, Call.name?]
  | _ => rfl

theorem held_insertFile (s : Store) (f : ModelFile) (id : FileId) :
    (s.insertFile f).held id = if id = f.id then .loaded f else s.held id := by
  simp only [held, insertFile, FileTable.get?_insert, FileTable.get?_erase]
  by_cases h : id = f.id <;> simp only [h, if_true, if_false]

theorem held_removeFile (s : Store) (other id : FileId) :
    (s.removeFile other).held id = if id = other then .absent else s.held id := by
  simp only [held, removeFile, FileTable.get?_erase]
  by_cases h : id = other <;> simp only [h, if_true, if_false]

theorem held_setFailure (s : Store) (other : FileId) (error : Source.LoadError) (id : FileId) :
    (s.setFailure other error).held id = if id = other then .failed error else s.held id := by
  simp only [held, setFailure, FileTable.get?_insert, FileTable.get?_erase]
  by_cases h : id = other <;> simp only [h, if_true, if_false]

theorem held_loadFile (h : s.registry.names.Nodup) (name source : String) (id : FileId) :
    (s.loadFile name source).1.held id
      = ((Call.load name source).effect s.settings
        (s.loadFile name source).1.registry.names id).getD
        (s.held id) := by
  have hnames : (s.loadFile name source).1.registry = (s.registry.intern name).1 :=
    (loadFile_fixed s name source).2
  have hid : (s.registry.intern name).1.names[id.index]? = some name ↔ id = (s.intern name).2 :=
    ⟨fun hname => FileRegistry.name?_inj (FileRegistry.nodup_intern h name) hname
      (name?_intern s name), fun he => he ▸ name?_intern s name⟩
  rw [Call.effect, hnames]
  by_cases he : id = (s.intern name).2
  · rw [if_pos (hid.mpr he), loadFile_eq, ← he]
    cases hload : ModelFile.load id name source s.settings.app s.naming with
    | error e => 
      rw [naming] at hload
      rw [hload]
      rfl
    | ok file =>
      rw [naming] at hload
      rw [hload]
      cases file with
      | none => exact (held_removeFile _ _ _).trans (if_pos rfl)
      | some f =>
        have hf : f.id = id := (ModelFile.numbered_of_load hload).1
        exact (held_insertFile _ _ _).trans (if_pos hf.symm)
  · rw [if_neg fun hname => he (hid.mp hname), loadFile_eq]
    cases hload : ModelFile.load (s.intern name).2 name source s.settings.app s.naming with
    | error e => rfl
    | ok file =>
      cases file with
      | none => exact (held_removeFile _ _ _).trans (if_neg he)
      | some f =>
        have hf : f.id = (s.intern name).2 := (ModelFile.numbered_of_load hload).1
        exact (held_insertFile _ _ _).trans (if_neg (hf ▸ he))

/-- **A call leaves its effect under an id**, or what was there. -/
theorem held_perform (h : s.registry.names.Nodup) (c : Call) (id : FileId) :
    (c.perform s).held id
      = (c.effect s.settings (c.perform s).registry.names id).getD (s.held id) := by
  cases c with
  | intern name => rfl
  | load name source => rw [Call.perform, held_loadFile h name source id]
  | fail other error =>
    refine (held_setFailure s other error id).trans ?_
    rw [Call.effect]
    split <;> rfl
  | remove other =>
    refine (held_removeFile s other id).trans ?_
    rw [Call.effect]
    split <;> rfl
  | link =>
    rw [Call.perform, link_eq]
    rfl

/-! ### What a history leaves -/

theorem settings_performAll (settings : Settings) (calls : List Call) :
    (performAll settings calls).settings = settings := by
  induction calls using List.reverseRecOn with
  | nil => rfl
  | append_singleton calls c ih => rw [performAll_concat, settings_perform, ih]

theorem mentioned_concat (calls : List Call) (c : Call) :
    mentioned (calls ++ [c]) = match c.name? with
      | some name => if name ∈ mentioned calls then mentioned calls else mentioned calls ++ [name]
      | none => mentioned calls := by
  rw [mentioned, List.filterMap_append, List.filterMap_cons]
  cases c.name? with
  | none => simp [mentioned]
  | some name => simp only [mentioned, List.filterMap_nil, firstOccurrences_concat,
    mem_firstOccurrences]

theorem names_performAll (settings : Settings) (calls : List Call) :
    (performAll settings calls).registry.names = mentioned calls := by
  induction calls using List.reverseRecOn with
  | nil => rfl
  | append_singleton calls c ih =>
    rw [performAll_concat, registry_perform, mentioned_concat]
    cases c.name? with
    | none => exact ih
    | some name =>
      rw [← ih]
      simp only [FileRegistry.intern]
      cases hget : (performAll settings calls).registry.get? name with
      | some id => exact (if_pos
        (FileRegistry.mem_names_of_name? (FileRegistry.get?_eq_some hget))).symm
      | none => exact (if_neg (FileRegistry.get?_eq_none.mp hget)).symm

theorem effect_of_more {names more : List String} (h : names <+: more)
    (hmore : more.Nodup) {c : Call}
    (hc : ∀ name, c.name? = some name → name ∈ names) (settings : Settings) (id : FileId) :
    c.effect settings more id = c.effect settings names id := by
  cases c with
  | load name source =>
    obtain ⟨rest, rfl⟩ := h
    have hname : name ∈ names := hc name rfl
    have hiff : (names ++ rest)[id.index]? = some name ↔ names[id.index]? = some name := by
      have hgrow : ∀ {i : Nat}, names[i]? = some name →
          (names ++ rest)[i]? = some name := fun hi => by
        rw [List.getElem?_append_left (List.getElem?_eq_some_iff.mp hi).1, hi]
      refine ⟨fun hid => ?_, hgrow⟩
      obtain ⟨i, hi⟩ := List.mem_iff_getElem?.mp hname
      have hsame : id = ⟨i⟩ := FileRegistry.name?_inj (r := ⟨names ++ rest⟩) hmore hid (hgrow hi)
      rw [hsame, hi]
    simp only [Call.effect, hiff]
  | _ => rfl

theorem mentioned_grow (calls : List Call) (c : Call) : mentioned calls <+:
    mentioned (calls ++ [c]) := by
  rw [mentioned_concat]
  cases c.name? with
  | none => exact List.prefix_refl _
  | some name =>
    simp only []
    split
    · exact List.prefix_refl _
    · exact List.prefix_append _ _

theorem held_of_more (settings : Settings) (calls : List Call) {names : List String}
    (h : mentioned calls <+: names) (hnames : names.Nodup) (id : FileId) :
    (performAll settings calls).held id
      = ((calls.filterMap (·.effect settings names id)).getLast?).getD .absent := by
  induction calls using List.reverseRecOn with
  | nil => rfl
  | append_singleton calls c ih =>
    have hc : ∀ name, c.name? = some name → name ∈ mentioned (calls ++ [c]) := fun name hname =>
      mem_firstOccurrences.mpr (List.mem_filterMap.mpr ⟨c, by simp, hname⟩)
    rw [performAll_concat, held_perform (reachable_performAll settings calls).drafted.names,
      settings_performAll, ← performAll_concat, names_performAll, ← effect_of_more h hnames hc,
      ih ((mentioned_grow calls c).trans h), List.filterMap_append]
    cases hc : c.effect settings names id <;> simp [hc]

/-- **Under each id stands what the last call that changed it left there.** -/
theorem held_performAll (settings : Settings) (calls : List Call) (id : FileId) :
    (performAll settings calls).held id = condition settings calls id := by
  have hnodup := (reachable_performAll settings calls).drafted.names
  rw [names_performAll] at hnodup
  exact held_of_more settings calls (List.prefix_refl _) hnodup id

/-! ### Between calls -/

/-- Nothing is both loaded and failed, and a store that is not dirty shows its last link. -/
structure Orderly (s : Store) : Prop where
  failures : s.failures.Sorted
  apart : ∀ id, s.drafts.get? id = none ∨ s.failures.get? id = none
  shown : s.dirty = false → s.model = s.linked.model ∧
    s.diagnostics = Diagnostics.byFile s.settings.suppressed s.linked.problems

theorem Orderly.intern (h : s.Orderly) (name : String) : (s.intern name).1.Orderly :=
  ⟨h.failures, h.apart, h.shown⟩

theorem Orderly.insertFile (h : s.Orderly) (f : ModelFile) : (s.insertFile f).Orderly where
  failures := h.failures.erase f.id
  apart id := by
    simp only [Store.insertFile, FileTable.get?_insert, FileTable.get?_erase]
    by_cases he : id = f.id
    · exact Or.inr (if_pos he)
    · simpa only [he, if_false] using h.apart id
  shown hclean := absurd hclean (by simp [Store.insertFile])

theorem Orderly.setFailure (h : s.Orderly) (other : FileId) (error : Source.LoadError) :
    (s.setFailure other error).Orderly where
  failures := h.failures.insert other error
  apart id := by
    simp only [Store.setFailure, FileTable.get?_insert, FileTable.get?_erase]
    by_cases he : id = other
    · exact Or.inl (if_pos he)
    · simpa only [he, if_false] using h.apart id
  shown hclean := absurd hclean (by simp [Store.setFailure])

theorem removeFile_of_not_holds (h : s.holds id = false) : s.removeFile id = s := by
  have hnone : s.drafts.get? id = none ∧ s.failures.get? id = none := by
    simpa [holds, FileTable.contains] using h
  unfold removeFile
  rw [h, FileTable.erase_of_not_mem (FileTable.get?_eq_none.mp hnone.1),
    FileTable.erase_of_not_mem (FileTable.get?_eq_none.mp hnone.2), Bool.or_false]

theorem Orderly.removeFile (h : s.Orderly) (other : FileId) : (s.removeFile other).Orderly := by
  cases hholds : s.holds other with
  | false => rwa [removeFile_of_not_holds hholds]
  | true =>
    refine ⟨h.failures.erase other, fun id => ?_, fun hclean => absurd hclean ?_⟩
    · simp only [Store.removeFile, FileTable.get?_erase]
      by_cases he : id = other
      · exact Or.inl (if_pos he)
      · simpa only [he, if_false] using h.apart id
    · simp [Store.removeFile, hholds]

theorem linked_congr (hsettings : s.settings = s'.settings) (hdrafts : s.drafts = s'.drafts)
    (hfailures : s.failures = s'.failures) : s.linked = s'.linked := by
  rw [linked, linked, naming, naming, hsettings, hdrafts, hfailures]

theorem linked_link (s : Store) : s.link.1.linked = s.linked := by
  rw [link_eq]
  exact linked_congr rfl rfl rfl

theorem linked_eq (s : Store) : s.linked =
    ⟨(s.draftModel.link s.naming).model,
      (s.failures.map fun (id, e) => failureProblem id e)
        ++ (s.draftModel.link s.naming).problems⟩ := rfl

/-- Without files there is nothing to link, and nothing to report. -/
theorem link_of_no_files {m : Model} (h : m.AsLoaded) (hm : m.files = []) (rules : NamingRules) :
    m.link rules = ⟨⟨[]⟩, []⟩ := by
  have hfiles : (m.link rules).model.files = [] := by
    have houtlines := Linking.outlines_link rules h
    rwa [Model.outlines, Model.outlines, hm, List.map_nil, List.map_eq_nil_iff] at houtlines
  have hproblems : (m.link rules).problems = [] :=
    List.eq_nil_iff_forall_not_mem.mpr fun d hd => by
      obtain ⟨f, hf, -⟩ := Linking.covers_problems rules h d hd
      rw [hm] at hf
      exact absurd hf List.not_mem_nil
  generalize m.link rules = linked at hfiles hproblems
  obtain ⟨⟨files⟩, problems⟩ := linked
  rw [show files = [] from hfiles, show problems = [] from hproblems]

theorem orderly_fresh (settings : Settings) : ({ settings } : Store).Orderly where
  failures := List.Pairwise.nil
  apart _ := Or.inl rfl
  shown _ := by
    rw [linked_eq, link_of_no_files (Reachable.new settings).drafted.asLoaded rfl]
    exact ⟨rfl, rfl⟩

theorem Orderly.link (h : s.Orderly) : s.link.1.Orderly := by
  have hsame := linked_link s
  rw [link_eq] at hsame ⊢
  refine ⟨h.failures, h.apart, fun _ => ?_⟩
  rw [hsame]
  exact ⟨rfl, rfl⟩

theorem Reachable.orderly (h : s.Reachable) : s.Orderly :=
  h.of_kept orderly_fresh (fun _ name h => h.intern name) (fun _ f h => h.insertFile f)
    (fun _ id h => h.removeFile id) (fun _ id error h => h.setFailure id error) fun _ _ h => h.link

/-! ### The same link -/

theorem Orderly.get?_failures (h : s.Orderly) (id : FileId) :
    s.failures.get? id = match s.held id with
      | .failed error => some error
      | _ => none := by
  unfold held
  rcases h.apart id with hnone | hnone
  · rw [hnone]
    cases s.failures.get? id <;> rfl
  · rw [hnone]
    cases s.drafts.get? id <;> rfl

theorem get?_drafts (s : Store) (id : FileId) :
    s.drafts.get? id = match s.held id with
      | .loaded file => some file
      | _ => none := by
  unfold held
  cases s.drafts.get? id with
  | some file => rfl
  | none => cases s.failures.get? id <;> rfl

/-- What a link comes to is settled by the settings, the names and what is held under each id. -/
theorem link_congr (h : s.Reachable) (h' : s'.Reachable) (hsettings : s.settings = s'.settings)
    (hregistry : s.registry = s'.registry) (hheld : ∀ id, s.held id = s'.held id) :
    s.link = s'.link := by
  have hdrafts : s.drafts = s'.drafts := h.drafted.sorted.ext h'.drafted.sorted fun id => by
    rw [get?_drafts, get?_drafts, hheld]
  have hfailures : s.failures = s'.failures :=
    h.orderly.failures.ext h'.orderly.failures fun id => by
    rw [h.orderly.get?_failures, h'.orderly.get?_failures, hheld]
  have hlinked : s.linked = s'.linked := linked_congr hsettings hdrafts hfailures
  simp only [link, hlinked, hsettings, hregistry, hdrafts, hfailures]

/-! ### What is reported -/

/-- A link reports in files that were loaded or failed, if the errors of those that failed stand in
them. -/
theorem Reachable.mem_loadedIds_of_reported (h : s.Reachable)
    (hown : ∀ failed ∈ s.failures, ∀ l, failed.2.location = some l → l.file = failed.1)
    (hid : id ∈ s.link.1.diagnostics.keys) : id ∈ s.link.1.loadedIds := by
  rw [loadedIds_link, mem_loadedIds]
  rw [link_eq] at hid
  obtain ⟨d, hd, rfl⟩ := Diagnostics.mem_keys_byFile hid
  rcases List.mem_append.mp hd with hd | hd
  · obtain ⟨⟨other, error⟩, hfailed, rfl⟩ := List.mem_map.mp hd
    have hfile : (failureProblem other error).file = other := by
      rw [failureProblem, Diagnostic.file]
      cases hl : error.location with
      | none => rfl
      | some l => exact hown _ hfailed l hl
    rw [hfile]
    exact Or.inr (List.mem_map_of_mem hfailed)
  · obtain ⟨f, hf, hfile⟩ := Linking.covers_problems s.naming h.drafted.asLoaded d hd
    refine Or.inl ?_
    rw [← h.drafted.ids, Diagnostic.file, ← hfile]
    exact List.mem_map_of_mem hf

/-! ### Main theorem -/

/-- Nothing is both loaded and failed, and each is listed once; a text that does not load leaves all
but its name as it was; a link repeated changes nothing; and diagnostics are of files that are
there, if the recorded errors are. -/
structure Consistent (s : Store) : Prop where
  apart : ∀ id ∈ s.drafts.keys, id ∉ s.failures.keys
  ascending : s.loadedIds.Pairwise (· < ·)
  rejected : ∀ name source e, (s.loadFile name source).2 = .error e →
    (s.loadFile name source).1 = { s with registry := (s.registry.intern name).1 }
  settled : s.dirty = false → s.link.1.model = s.model ∧ s.link.1.diagnostics = s.diagnostics
  reported : (∀ failed ∈ s.failures, ∀ l, failed.2.location = some l → l.file = failed.1) →
    ∀ id ∈ s.link.1.diagnostics.keys, id ∈ s.link.1.loadedIds

theorem loadFile_of_error {name source : String} {e : Source.LoadError}
    (h : (s.loadFile name source).2 = .error e) :
    (s.loadFile name source).1 = (s.intern name).1 := by
  rw [loadFile_eq]
  cases hload : ModelFile.load (s.intern name).2 name source s.settings.app s.naming with
  | error e => rfl
  | ok file =>
    unfold loadFile at h
    rw [intern_eq] at h hload
    simp only [naming] at h hload
    rw [hload] at h
    exact absurd h nofun

theorem Orderly.not_failed (h : s.Orderly) (hid : id ∈ s.drafts.keys) : id ∉ s.failures.keys :=
  FileTable.get?_eq_none.mp
    ((h.apart id).resolve_left fun hnone => FileTable.get?_eq_none.mp hnone hid)

theorem Reachable.consistent (h : s.Reachable) : s.Consistent where
  apart _ := h.orderly.not_failed
  ascending := FileId.pairwise_sort <| List.nodup_append.mpr
    ⟨h.drafted.sorted.nodup, h.orderly.failures.nodup,
      fun _ ha _ hb hab => h.orderly.not_failed ha (hab ▸ hb)⟩
  rejected _ _ _ herror := loadFile_of_error herror
  settled hclean := by
    obtain ⟨hmodel, hdiagnostics⟩ := h.orderly.shown hclean
    rw [hmodel, hdiagnostics, link_eq]
    exact ⟨rfl, rfl⟩
  reported hown _ hid := h.mem_loadedIds_of_reported hown hid

/-- Histories that mention the same names in the same order and leave the same under each id end in
the same link. -/
theorem link_performAll (hnames : mentioned calls = mentioned calls')
    (hconditions : ∀ id, condition settings calls id = condition settings calls' id) :
    (performAll settings calls).link = (performAll settings calls').link := by
  refine link_congr (reachable_performAll _ _) (reachable_performAll _ _) ?_ ?_ fun id => ?_
  · rw [settings_performAll, settings_performAll]
  · exact congrArg FileRegistry.mk ((names_performAll settings calls).trans
      (hnames.trans (names_performAll settings calls').symm))
  · rw [held_performAll, held_performAll, hconditions]

/-- **A store does not depend on its history, and is consistent at every point of it.**  However
calls load, fail, mend, remove and link: if two histories mention the same names in the same order,
and the last call that changed anything under an id left the same there, the links after them report
the same and leave the same store.  An id that no call changed is absent. -/
theorem history_independent :
    (∀ (settings : Settings) (calls calls' : List Call), mentioned calls = mentioned calls' →
      (∀ id, condition settings calls id = condition settings calls' id) →
      (performAll settings calls).link = (performAll settings calls').link) ∧
    ∀ s : Store, s.Reachable → s.Consistent :=
  ⟨fun _ _ _ => link_performAll, fun _ h => h.consistent⟩

/-! ### Two histories -/

def unreadable : Source.LoadError := ⟨.unreadable "busy", "A", some (.point ⟨0⟩ 2 1)⟩

def oneClass : String := "module: M\ntags: [t]\n---\nclass:\n name: A\n comment: c"

/-- One file fails and is mended, the other fails and is removed, with links in between. -/
def retries : List Call :=
  [.load "A" oneClass, .fail ⟨0⟩ unreadable, .link, .intern "B", .fail ⟨1⟩ unreadable,
    .load "A" oneClass, .link, .remove ⟨1⟩]

/-- The same without the detours; the other file is empty. -/
def direct : List Call := [.intern "A", .load "B" "", .load "A" oneClass]

theorem exists_oneClass : ∃ f, ModelFile.load ⟨0⟩ "A" oneClass "" {} = .ok (some f) := by
  have hsome : (match ModelFile.load ⟨0⟩ "A" oneClass "" {} with
      | .ok file => file.isSome
      | .error _ => false) = true := by decide +kernel
  split at hsome
  next file hload =>
    obtain ⟨f, rfl⟩ := Option.isSome_iff_exists.mp hsome
    exact ⟨f, hload⟩
  · simp at hsome

theorem load_empty : ModelFile.load ⟨1⟩ "B" "" "" {} = .ok none := by
  have hnone : (match ModelFile.load ⟨1⟩ "B" "" "" {} with
      | .ok file => file.isNone
      | .error _ => false) = true := by decide +kernel
  split at hnone
  next file hload => rw [hload, Option.isNone_iff_eq_none.mp hnone]
  · simp at hnone

theorem condition_retries (id : FileId) : condition {} retries id = condition {} direct id := by
  obtain ⟨f, hload⟩ := exists_oneClass
  have hretries : mentioned retries = ["A", "B"] := by decide
  have hdirect : mentioned direct = ["A", "B"] := by decide
  rw [condition, condition, hretries, hdirect]
  match id with
  | ⟨0⟩ => simp [retries, direct, Call.effect, hload]
  | ⟨1⟩ => simp [retries, direct, Call.effect, load_empty]
  | ⟨i + 2⟩ => simp [retries, direct, Call.effect]

/-- The detours leave nothing behind, and a store whose first file cannot be read says so in that
file. -/
theorem history_independent_of_retries :
    (performAll {} retries).link = (performAll {} direct).link ∧
      ∀ id ∈ (performAll {} [.intern "A", .fail ⟨0⟩ unreadable]).link.1.diagnostics.keys,
        id ∈ (performAll {} [.intern "A", .fail ⟨0⟩ unreadable]).link.1.loadedIds := by
  refine ⟨history_independent.1 {} retries direct (by decide) condition_retries,
    (history_independent.2 _ (reachable_performAll {} _)).reported fun failed hfailed l hl => ?_⟩
  obtain rfl : failed = (⟨0⟩, unreadable) := List.mem_singleton.mp hfailed
  obtain rfl := Option.some.inj hl
  rfl

end Store

end EntityModel
