import EntityModel.Proofs.Mirroring.Linked
import EntityModel.Proofs.Store.Diagnosed

/-!
# The order of loading

Ids are dealt out in order of loading, and every pass of linking goes by them.  All the same a store
can be loaded in any order: if linking finds no error after one of them, it finds none after the
others, and the linked stores are the same but for the ids of the files, which their names settle
(`loadAll_order`).

The files loaded are those that the texts hold, each under the id of its name (`files_loadAll`).  A
text read under another id gives the same file, relabelled, so two orders give mirrored drafts, and
linking takes those to mirrored models.
-/

namespace EntityModel

namespace FileRegistry

/-- The ids of one registry exchanged for those of another, name by name. -/
def exchange (r r' : FileRegistry) : Relabelling where
  file id := ((r.name? id).bind r'.get?).getD id

variable {r r' : FileRegistry}

theorem get?_exchange (hp : r'.names.Perm r.names) (name : String) :
    r'.get? name = (r.get? name).map (exchange r r').file := by
  cases hn : r.get? name with
  | none =>
    rw [get?_eq_none] at hn
    exact get?_eq_none.mpr fun hmem => hn (hp.subset hmem)
  | some id =>
    have hid := get?_eq_some hn
    have hsome : r'.get? name ≠ none := fun hnone =>
      get?_eq_none.mp hnone (hp.symm.subset (mem_names_of_name? hid))
    obtain ⟨id', hid'⟩ := Option.ne_none_iff_exists'.mp hsome
    simp only [Option.map_some, exchange, hid, Option.bind_some, hid', Option.getD_some]

/-- **Registries of the same names exchange their ids one to one.** -/
theorem renames_exchange (h : r.names.Nodup) (hp : r'.names.Perm r.names) :
    (exchange r r').Renames where
  keep := rfl
  injective := by
    have hdealt : ∀ {id name}, r.name? id = some name →
        r'.name? ((exchange r r').file id) = some name := by
      intro id name hn
      have hget := get?_exchange hp name
      rw [get?_of_name? h hn, Option.map_some] at hget
      exact get?_eq_some hget
    have hother : ∀ {id}, r.name? id = none → (exchange r r').file id = id := by
      intro id hn
      simp only [exchange, hn, Option.bind_none, Option.getD_none]
    -- an id that is not dealt out stays where it is, behind all those that are
    have hbehind : ∀ {a b name}, r.name? a = some name → r.name? b = none →
        (exchange r r').file a ≠ (exchange r r').file b := by
      intro a b name ha hb he
      have hlt := lt_of_name? (hdealt ha)
      have hle := List.getElem?_eq_none_iff.mp hb
      rw [he, hother hb, hp.length_eq] at hlt
      omega
    intro a b he
    cases ha : r.name? a with
    | none =>
      cases hb : r.name? b with
      | none => rwa [hother ha, hother hb] at he
      | some name => exact absurd he.symm (hbehind hb ha)
    | some name =>
      cases hb : r.name? b with
      | none => exact absurd he (hbehind ha hb)
      | some name' =>
        have hsame := hdealt ha
        rw [he, hdealt hb] at hsame
        obtain rfl := Option.some.inj hsame
        exact name?_inj h ha hb

end FileRegistry

namespace Store

open Linking

variable {settings : Settings} {sources sources' : List (String × String)}

/-! ### What is loaded -/

def loadedFile (settings : Settings) (r : FileRegistry) (x : String × String) :
    Option ModelFile := do
  match ModelFile.load (← r.get? x.1) x.1 x.2 settings.app settings.naming with
  | .ok f => f
  | .error _ => none

theorem loadedFile_congr (settings : Settings) {r r' : FileRegistry} {x : String × String}
    (h : r.get? x.1 = r'.get? x.1) : loadedFile settings r x = loadedFile settings r' x := by
  unfold loadedFile
  rw [h]

/-- Loading a text under a new name: the name gets the next id, and the file comes last. -/
theorem loadFile_new {s : Store} (h : s.Drafted) (hf : s.failures = []) {name : String}
    (hnew : name ∉ s.registry.names) (source : String) :
    (s.loadFile name source).1.settings = s.settings ∧ (s.loadFile name source).1.failures = [] ∧
      (s.loadFile name source).1.registry.names = s.registry.names ++ [name] ∧
      (s.loadFile name source).1.draftModel.files
        = s.draftModel.files
          ++ (loadedFile s.settings (s.loadFile name source).1.registry (name, source)).toList := by
  have hintern := FileRegistry.intern_of_not_mem hnew
  have hkeys : ∀ k ∈ s.drafts.keys, k < (⟨s.registry.names.length⟩ : FileId) := by
    intro k hk
    obtain ⟨⟨id, f⟩, hmem, rfl⟩ := List.mem_map.mp hk
    exact FileRegistry.lt_of_name? (h.drafts id f hmem).2.1
  have hnot : (⟨s.registry.names.length⟩ : FileId) ∉ s.drafts.keys := fun hmem =>
    absurd (hkeys _ hmem) (Nat.lt_irrefl _)
  have hget : (⟨s.registry.names ++ [name]⟩ : FileRegistry).get? name
      = some ⟨s.registry.names.length⟩ := by
    refine FileRegistry.get?_of_name? ?_ (by simp [FileRegistry.name?])
    have := FileRegistry.nodup_intern h.names name
    rwa [hintern] at this
  have hs : s.intern name = ({ s with registry := ⟨s.registry.names ++ [name]⟩ },
      ⟨s.registry.names.length⟩) := by rw [intern_eq, hintern]
  have hnaming : s.naming = s.settings.naming := rfl
  rw [loadFile_eq, hs, hnaming]
  cases hload : ModelFile.load ⟨s.registry.names.length⟩ name source s.settings.app
    s.settings.naming with
  | error e =>
    refine ⟨rfl, hf, rfl, ?_⟩
    simp only [loadedFile, bind, hget, Option.bind_some, hload, Option.toList_none, List.append_nil]
    rfl
  | ok file =>
    cases file with
    | none =>
      refine ⟨rfl, ?_, rfl, ?_⟩
      · exact (congrArg (FileTable.erase · _) hf).trans rfl
      · simp only [putLoaded, removeFile, draftModel, loadedFile, bind, hget,
          Option.bind_some, hload, Option.toList_none, List.append_nil,
          FileTable.erase_of_not_mem hnot]
    | some f =>
      obtain ⟨hid, -, -⟩ := ModelFile.numbered_of_load hload
      refine ⟨rfl, ?_, rfl, ?_⟩
      · exact (congrArg (FileTable.erase · _) hf).trans rfl
      · simp only [putLoaded, insertFile, draftModel, loadedFile, bind, hget,
          Option.bind_some, hload, hid, FileTable.insert_of_lt f hkeys, FileTable.values,
          List.map_append, List.map_cons, List.map_nil, Option.toList_some]

/-- **The files loaded are those that the texts hold**, in order. -/
theorem files_loadAll (settings : Settings) (hnodup : (sources.map Prod.fst).Nodup) :
    (loadAll settings sources).settings = settings ∧ (loadAll settings sources).failures = [] ∧
      (loadAll settings sources).registry.names = sources.map Prod.fst ∧
      (loadAll settings sources).draftModel.files
        = sources.filterMap (loadedFile settings (loadAll settings sources).registry) := by
  induction sources using List.reverseRecOn with
  | nil => exact ⟨rfl, rfl, rfl, rfl⟩
  | append_singleton sources x ih =>
    rw [List.map_append, List.nodup_append] at hnodup
    obtain ⟨hold, -, hdisjoint⟩ := hnodup
    obtain ⟨hsettings, hfailures, hnames, hfiles⟩ := ih hold
    have hnew : x.1 ∉ (loadAll settings sources).registry.names := by
      rw [hnames]
      exact fun hmem => hdisjoint _ hmem _ (by simp) rfl
    obtain ⟨hsettings', hfailures', hnames', hfiles'⟩ :=
      loadFile_new (reachable_loadAll settings sources).drafted hfailures hnew x.2
    rw [loadAll_concat]
    refine ⟨hsettings'.trans hsettings, hfailures', ?_, ?_⟩
    · rw [hnames', hnames, List.map_append]
      rfl
    · rw [hfiles', hfiles, hsettings, List.filterMap_append]
      refine congrArg₂ (· ++ ·) (List.filterMap_congr fun y hy => ?_) ?_
      · -- the names that came before keep their ids
        refine loadedFile_congr settings ?_
        have hy : y.1 ∈ (loadAll settings sources).registry.names := hnames ▸ List.mem_map_of_mem hy
        obtain ⟨id, hid⟩ := Option.ne_none_iff_exists'.mp
          (fun hnone => FileRegistry.get?_eq_none.mp hnone hy)
        have hname := FileRegistry.get?_eq_some hid
        have hdrafted := (reachable_loadAll settings sources).load x.1 x.2
        rw [hid]
        refine (FileRegistry.get?_of_name? hdrafted.drafted.names ?_).symm
        unfold FileRegistry.name? at hname ⊢
        rw [hnames', List.getElem?_append_left (List.getElem?_eq_some_iff.mp hname).1]
        exact hname
      · rw [List.filterMap_cons, List.filterMap_nil]
        generalize loadedFile settings _ x = o
        cases o <;> rfl

/-! ### Another order -/

theorem loadedFile_exchange {r r' : FileRegistry} (hp : r'.names.Perm r.names)
    (x : String × String) :
    loadedFile settings r' x
      = (loadedFile settings r x).map (ModelFile.relabel (r.exchange r')) := by
  unfold loadedFile
  rw [FileRegistry.get?_exchange hp]
  cases r.get? x.1 with
  | none => rfl
  | some id =>
    simp only [bind, Option.map_some, Option.bind_some, ModelFile.load_relabel]
    cases ModelFile.load id x.1 x.2 settings.app settings.naming <;> rfl

/-- **Texts loaded in two orders give mirrored drafts.** -/
theorem mirrors_drafts (settings : Settings) (hnodup : (sources.map Prod.fst).Nodup)
    (hperm : sources'.Perm sources) :
    (loadAll settings sources).draftModel.Mirrors
      ((loadAll settings sources).registry.exchange (loadAll settings sources').registry)
      (loadAll settings sources').draftModel := by
  have hnodup' : (sources'.map Prod.fst).Nodup := (hperm.map _).nodup_iff.mpr hnodup
  obtain ⟨-, -, hnames, hfiles⟩ := files_loadAll settings hnodup
  obtain ⟨-, -, hnames', hfiles'⟩ := files_loadAll settings hnodup'
  have hp : (loadAll settings sources').registry.names.Perm
      (loadAll settings sources).registry.names := by
    rw [hnames, hnames']
    exact hperm.map _
  have hdrafted := (reachable_loadAll settings sources).drafted
  refine ⟨FileRegistry.renames_exchange hdrafted.names hp, ?_, hdrafted.numbered.files, ?_⟩
  · rw [hfiles, hfiles', List.map_filterMap]
    exact (hperm.filterMap _).trans
      (.of_eq (List.filterMap_congr fun x _ => loadedFile_exchange hp x))
  · exact hdrafted.numbered.files.of_map.map_on fun f hf g hg => hdrafted.name_inj hf hg

/-- The linked store `s'` is `s` under other file ids: the ids go with the names, the files are the
same with all that their references point to, and whatever is read off them is the same. -/
structure SameUpTo (ρ : Relabelling) (s s' : Store) : Prop where
  ids : ∀ name, s'.registry.get? name = (s.registry.get? name).map ρ.file
  files : s'.model.files.Perm (s.model.files.map (ModelFile.relabel ρ))
  named : ∀ name, s'.fileNamed? name = (s.fileNamed? name).map (ModelFile.relabel ρ)
  problems : ∀ id, s'.problemsOf (ρ.file id) = (s.problemsOf id).map (Diagnostic.relabel ρ)
  names : ∀ id, s'.model.propertyName? s'.naming (id.relabel ρ) = s.model.propertyName? s.naming id
  javaNames : ∀ id, s'.model.javaName s'.naming (id.relabel ρ) = s.model.javaName s.naming id
  tsNames : ∀ id, s'.model.tsName s'.naming (id.relabel ρ) = s.model.tsName s.naming id
  columns : ∀ id host, s'.model.columnName s'.naming (id.relabel ρ) (host.map (Id.relabel ρ))
    = s.model.columnName s.naming id host
  domains : ∀ id, s'.model.effectiveDomain (id.relabel ρ)
    = (s.model.effectiveDomain id).map (Id.relabel ρ)

/-- Stores with mirrored models and the same diagnostics are the same. -/
theorem sameUpTo_of_models {ρ : Relabelling} {s s' : Store} (h : s.model.Mirrors ρ s'.model)
    (hnaming : s'.naming = s.naming)
    (hids : ∀ name, s'.registry.get? name = (s.registry.get? name).map ρ.file)
    (hproblems : ∀ id, s'.problemsOf (ρ.file id) = (s.problemsOf id).map (Diagnostic.relabel ρ)) :
    SameUpTo ρ s s' where
  ids := hids
  files := h.files
  named name := by
    unfold Store.fileNamed?
    rw [hids]
    cases s.registry.get? name with
    | none => rfl
    | some id => exact h.file? id
  problems := hproblems
  names := hnaming ▸ h.propertyName?
  javaNames := hnaming ▸ h.javaName
  tsNames := hnaming ▸ h.tsName
  columns := hnaming ▸ h.columnName
  domains := h.effectiveDomain

/-! ### Linked in either order -/

theorem problems_linked {s : Store} (h : s.failures = []) :
    s.linked.problems = (s.draftModel.link s.naming).problems := by
  show s.failures.map _ ++ (s.draftModel.link s.naming).problems = _
  rw [h]
  rfl

theorem naming_link (s : Store) : s.link.1.naming = s.naming := by rw [link_eq, naming, naming]

theorem registry_link (s : Store) : s.link.1.registry = s.registry := by rw [link_eq]

theorem report_link (s : Store) : s.link.2 =
    { files := s.linked.model.files.length
      classes := s.linked.model.classes.length
      errors := Diagnostics.errorCount s.linked.problems
      warnings := Diagnostics.warningCount s.linked.problems } := by simp only [Store.link]

theorem report_of_mirrors {ρ : Relabelling} {s s' : Store}
    (h : s.linked.model.Mirrors ρ s'.linked.model)
    (hp : s'.linked.problems.Perm (s.linked.problems.map (Diagnostic.relabel ρ))) :
    s'.link.2 = s.link.2 := by
  have herrors : Diagnostics.errorCount s'.linked.problems
      = Diagnostics.errorCount s.linked.problems := by
    rw [Diagnostics.errorCount, hp.countP_eq, List.countP_map]
    rfl
  have hwarnings : Diagnostics.warningCount s'.linked.problems
      = Diagnostics.warningCount s.linked.problems := by
    rw [Diagnostics.warningCount, hp.countP_eq, List.countP_map]
    rfl
  rw [report_link, report_link, herrors, hwarnings, h.files.length_eq, h.classes.length_eq,
    List.length_map, List.length_map]

/-- The diagnostics kept for a file, where they are the same but for the ids. -/
theorem problemsOf_of_mirrors {ρ : Relabelling} {s s' : Store}
    (hsettings : s'.settings = s.settings)
    {id : FileId} (h : s'.linked.problems.filter (fun d => d.file == ρ.file id)
      = (s.linked.problems.filter fun d => d.file == id).map (Diagnostic.relabel ρ)) :
    s'.link.1.problemsOf (ρ.file id) = (s.link.1.problemsOf id).map (Diagnostic.relabel ρ) := by
  rw [problemsOf_link, problemsOf_link, Diagnostics.get?_byFile, Diagnostics.get?_byFile, hsettings,
    List.filter_comm, h, List.filter_map, List.filter_comm]
  rfl

/-- **Stores with mirrored drafts, one of them without errors, are the same once they are
linked.** -/
theorem sameUpTo_of_mirrors {ρ : Relabelling} {s s' : Store} (hD : s.draftModel.AsLoaded)
    (hD' : s'.draftModel.AsLoaded) (hdrafts : s.draftModel.Mirrors ρ s'.draftModel)
    (hids : ∀ name, s'.registry.get? name = (s.registry.get? name).map ρ.file)
    (hsettings : s'.settings = s.settings) (hfailures : s.failures = [])
    (hfailures' : s'.failures = [])
    (hnone : s.link.2.errors = 0) : s'.link.2 = s.link.2 ∧ SameUpTo ρ s.link.1 s'.link.1 := by
  have hnaming : s'.naming = s.naming := congrArg Settings.naming hsettings
  obtain ⟨hlinked, honly, honly'⟩ := mirrors_link hdrafts hD hD' (no_errors_of_link hnone)
  rw [← problems_linked hfailures] at honly
  rw [← hnaming, ← problems_linked hfailures', hnaming] at honly'
  have hvalid := (nothing_reported (no_errors_of_link hnone)).2.2.2.2
  simp only [Validation.problems, List.append_eq_nil_iff] at hvalid
  have hapart := domainsApart_of_no_duplicates hvalid.1.1.1
  have hplaces := warnings_of_mirrors hlinked hapart hD hD'
  rw [← honly, ← honly'] at hplaces
  have hreported := perm_unusedProblems hlinked hapart
  rw [← honly, ← honly'] at hreported
  have hmodel : s.link.1.model.Mirrors ρ s'.link.1.model := by
    rw [link_model, link_model, hnaming]
    exact hlinked
  refine ⟨report_of_mirrors ?_ hreported, sameUpTo_of_models hmodel ?_ ?_ ?_⟩
  · rw [linked_model, linked_model, hnaming]
    exact hlinked
  · rw [naming_link, naming_link, hnaming]
  · rw [registry_link, registry_link]
    exact hids
  · exact fun id => problemsOf_of_mirrors hsettings (hplaces id)

/-- **The order in which texts are loaded does not matter**: if linking finds no error after one
order, it finds none after the other, it reports as many files, classes and warnings, and the linked
stores are the same under the ids that their names go by. -/
theorem loadAll_order (hnodup : (sources.map Prod.fst).Nodup) (hperm : sources'.Perm sources)
    (hnone : (loadAll settings sources).link.2.errors = 0) :
    (loadAll settings sources').link.2 = (loadAll settings sources).link.2 ∧
      ∃ ρ : Relabelling, ρ.Renames ∧
        SameUpTo ρ (loadAll settings sources).link.1 (loadAll settings sources').link.1 := by
  have hnodup' : (sources'.map Prod.fst).Nodup := (hperm.map _).nodup_iff.mpr hnodup
  obtain ⟨hsettings, hfailures, hnames, -⟩ := files_loadAll settings hnodup
  obtain ⟨hsettings', hfailures', hnames', -⟩ := files_loadAll settings hnodup'
  have hp : (loadAll settings sources').registry.names.Perm
      (loadAll settings sources).registry.names := by
    rw [hnames, hnames']
    exact hperm.map _
  have hdrafts := mirrors_drafts settings hnodup hperm
  obtain ⟨hreport, hsame⟩ :=
    sameUpTo_of_mirrors (reachable_loadAll settings sources).drafted.asLoaded
      (reachable_loadAll settings sources').drafted.asLoaded hdrafts (FileRegistry.get?_exchange hp)
    (hsettings'.trans hsettings.symm) hfailures hfailures' hnone
  exact ⟨hreport, _, hdrafts.renames, hsame⟩

/-- A file with a class, and one with a class that has an alias of all its properties. -/
def twoFiles : List (String × String) :=
  [("A", "module: M\n---\ndomain:\n name: D\n label: d\n---\nclass:\n name: A\n comment: c\n"
      ++ " properties:\n - name: X\n   comment: c\n   domain: D"),
    ("B", "module: M\nuses:\n - A\n---\nclass:\n name: B\n comment: c\n properties:\n"
      ++ " - alias:\n    class: A")]

/-- Loaded the other way round, the first file has the second id, and all is the same under it. -/
theorem loadAll_order_of_twoFiles :
    (loadAll {} twoFiles.reverse).link.2.errors = 0 ∧ ∃ ρ : Relabelling, ρ.file ⟨0⟩ = ⟨1⟩ ∧
      SameUpTo ρ (loadAll {} twoFiles).link.1 (loadAll {} twoFiles.reverse).link.1 := by
  have hspelled : Spelled twoFiles _ :=
    .cons (toList_append_eq String.toList_ofList String.toList_ofList)
      (.cons (toList_append_eq String.toList_ofList String.toList_ofList) .nil)
  have hnone : (loadAll {} twoFiles).link.2.errors = 0 := by
    rw [loadAll_eq_foldl hspelled]
    decide +kernel
  obtain ⟨hreport, ρ, -, hsame⟩ := loadAll_order (by decide) (List.reverse_perm twoFiles) hnone
  have hnames : (loadAll {} twoFiles).registry.names = ["A", "B"] :=
    (files_loadAll {} (by decide)).2.2.1
  have hnames' : (loadAll {} twoFiles.reverse).registry.names = ["B", "A"] :=
    (files_loadAll {} (by decide)).2.2.1
  have hid := hsame.ids "A"
  rw [registry_link, registry_link, FileRegistry.get?, FileRegistry.get?, hnames, hnames'] at hid
  exact ⟨(congrArg LinkReport.errors hreport).trans hnone, ρ, (Option.some.inj hid).symm, hsame⟩

end Store

end EntityModel
