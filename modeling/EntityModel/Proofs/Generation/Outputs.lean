import EntityModel.Proofs.Generation.Selections
import EntityModel.Watching.Host

/-!
# Outputs of a run

A run takes each selected file with each tag of the generator that the file carries, in the order of
files and tags, and renders each path for the first of these pairs that it is given for.  Its
outputs are these and no others, in the order of the pairs that they are made from; where one of
them does not render, there are no outputs at all, and a watcher that runs the generator leaves the
disk and its record as they were (`Generator.outputs_exact`).
-/

namespace EntityModel

namespace Generator

variable {g : Generator} {s : Store} {ids : List FileId}

/-! ### Pairs of files and tags -/

/-- The selected files, each with every tag of the generator that it carries. -/
def pairs (g : Generator) (s : Store) (ids : List FileId) : List (ModelFile × String) :=
  (g.selected s ids).flatMap fun f => (g.tags.filter f.hasTag).map fun tag => (f, tag)

theorem mem_pairs {f : ModelFile} {tag : String} :
    (f, tag) ∈ g.pairs s ids ↔ f ∈ chosen s ids ∧ tag ∈ g.tags ∧ f.hasTag tag = true := by
  unfold pairs
  rw [List.mem_flatMap]
  constructor
  · rintro ⟨f', hf', hpair⟩
    obtain ⟨tag', htag, he⟩ := List.mem_map.mp hpair
    obtain ⟨rfl, rfl⟩ := Prod.mk.inj he
    exact ⟨(List.mem_filter.mp hf').1, List.mem_filter.mp htag⟩
  · rintro ⟨hf, htag⟩
    refine ⟨f, List.mem_filter.mpr ⟨hf, List.any_eq_true.mpr ⟨tag, htag⟩⟩, ?_⟩
    exact List.mem_map_of_mem (List.mem_filter.mpr htag)

def jobOf (g : Generator) (s : Store) (pair : ModelFile × String) : Option Job :=
  (g.outputPath s pair.1 pair.2).map fun path => ⟨path, pair.1, pair.2⟩

theorem jobs_pairs (g : Generator) (s : Store) (ids : List FileId) :
    (g.selected s ids).flatMap (g.jobsOf s) = (g.pairs s ids).filterMap (g.jobOf s) := by
  rw [pairs, List.filterMap_flatMap]
  refine List.flatMap_congr fun f _ => ?_
  rw [List.filterMap_map]
  rfl

theorem jobOf_eq_some_iff {pair : ModelFile × String} {j : Job} :
    g.jobOf s pair = some j ↔
    pair = (j.file, j.tag) ∧ g.outputPath s j.file j.tag = some j.path := by
  constructor
  · intro h
    obtain ⟨path, hpath, rfl⟩ := Option.map_eq_some_iff.mp h
    exact ⟨rfl, hpath⟩
  · rintro ⟨rfl, hpath⟩
    rw [jobOf, hpath]
    rfl

/-- The pair in this place gives the path of the job, and none before it does. -/
structure FirstFor (g : Generator) (s : Store) (pairs : List (ModelFile × String)) (i : Nat)
    (j : Job) : Prop where
  pair : pairs[i]? = some (j.file, j.tag)
  path : g.outputPath s j.file j.tag = some j.path
  first : ∀ k < i, ∀ f tag p, pairs[k]? = some (f, tag) → g.outputPath s f tag = some p →
    p.same j.path = false

theorem FirstFor.zero {rest : List (ModelFile × String)} {j : Job}
    (h : g.outputPath s j.file j.tag = some j.path) : g.FirstFor s ((j.file, j.tag) :: rest) 0 j :=
  ⟨rfl, h, fun _ hk => absurd hk (Nat.not_lt_zero _)⟩

theorem FirstFor.succ {pair : ModelFile × String} {rest : List (ModelFile × String)}
    {i : Nat} {j : Job}
    (h : g.FirstFor s rest i j)
    (hpair : ∀ p, g.outputPath s pair.1 pair.2 = some p → p.same j.path = false) :
    g.FirstFor s (pair :: rest) (i + 1) j where
  pair := h.pair
  path := h.path
  first
    | 0, _, _, _, p, hhead, hp => by
      obtain rfl := Option.some.inj hhead
      exact hpair p hp
    | k + 1, hk, f, tag, p, hk', hp => h.first k (Nat.lt_of_succ_lt_succ hk) f tag p hk' hp

/-- **The jobs that are done stand in the order of the pairs that they are first for.** -/
theorem exists_places (g : Generator) (s : Store) (pairs : List (ModelFile × String)) :
    ∃ places : List Nat, places.Pairwise (· < ·) ∧
      List.Forall₂ (g.FirstFor s pairs) places (firstByPath (pairs.filterMap (g.jobOf s))) := by
  induction pairs with
  | nil => exact ⟨[], .nil, .nil⟩
  | cons pair rest ih =>
    -- the places in the rest move on by one, and those for the path of the new pair drop out
    obtain ⟨places, hsorted, hplaces⟩ := ih
    rw [List.filterMap_cons]
    cases hj : g.jobOf s pair with
    | none =>
      have hnone : g.outputPath s pair.1 pair.2 = none := Option.map_eq_none_iff.mp hj
      refine ⟨places.map (· + 1), List.pairwise_map.mpr (hsorted.imp Nat.succ_lt_succ), ?_⟩
      exact List.forall₂_map_left_iff.mpr (hplaces.imp fun _ _ h => h.succ (by simp [hnone]))
    | some j =>
      obtain ⟨rfl, hpath⟩ := jobOf_eq_some_iff.mp hj
      obtain ⟨kept, hsub, hkept⟩ := exists_sublist_filter hplaces fun k => !k.path.same j.path
      refine ⟨0 :: kept.map (· + 1), List.pairwise_cons.mpr ⟨by simp, ?_⟩, .cons (.zero hpath) ?_⟩
      · exact List.pairwise_map.mpr ((hsorted.sublist hsub).imp Nat.succ_lt_succ)
      · refine List.forall₂_map_left_iff.mpr
          (hkept.imp fun i k ⟨hfirst, hother⟩ => hfirst.succ fun p hp => ?_)
        obtain rfl := Option.some.inj (hpath.symm.trans hp)
        rw [Path.same_comm]
        simpa using hother

theorem FirstFor.mem_firstByPath {pairs : List (ModelFile × String)} {i : Nat} {j : Job}
    (h : g.FirstFor s pairs i j) :
    j ∈ firstByPath (pairs.filterMap (g.jobOf s)) := by
  obtain ⟨hlt, hpair⟩ := List.getElem?_eq_some_iff.mp h.pair
  have hj : g.jobOf s (j.file, j.tag) = some j := jobOf_eq_some_iff.mpr ⟨rfl, h.path⟩
  have hfound : pairs.find? (fun pair => (g.jobOf s pair).any (·.path.same j.path))
      = some (j.file, j.tag) := by
    refine List.find?_eq_some_iff_getElem.mpr ⟨?_, i, hlt, hpair, fun k hk => ?_⟩
    · rw [hj]
      exact Path.same_iff.mpr rfl
    · cases hk' : g.jobOf s pairs[k] with
      | none => rfl
      | some j' =>
        obtain ⟨hpair', hpath'⟩ := jobOf_eq_some_iff.mp hk'
        have hget := List.getElem?_eq_getElem (Nat.lt_trans hk hlt)
        simp [h.first k hk _ _ _ (hget.trans (congrArg some hpair')) hpath']
  rw [Generator.mem_firstByPath, List.find?_filterMap, hfound, Option.bind_some, hj]

theorem pairwise_firstByPath (jobs : List Job) :
    (firstByPath jobs).Pairwise fun j j' => j.path.same j'.path = false := by
  induction jobs with
  | nil => exact .nil
  | cons j rest ih =>
    refine List.pairwise_cons.mpr ⟨fun k hk => ?_, ih.filter _⟩
    rw [Path.same_comm]
    simpa using (List.mem_filter.mp hk).2

theorem firstByPath_subset {jobs : List Job} : firstByPath jobs ⊆ jobs := fun _ hj =>
  List.mem_of_find?_eq_some (Generator.mem_firstByPath.mp hj)

theorem exists_firstByPath {jobs : List Job} {j : Job} (hj : j ∈ jobs) :
    ∃ k ∈ firstByPath jobs, k.path.same j.path = true := by
  obtain ⟨k, hk⟩ := Option.isSome_iff_exists.mp
    (List.find?_isSome (p := fun k : Job => k.path.same j.path).mpr ⟨j, hj, Path.same_iff.mpr rfl⟩)
  have hsame := List.find?_some (p := fun k : Job => k.path.same j.path) hk
  refine ⟨k, Generator.mem_firstByPath.mpr ?_, hsame⟩
  simpa only [Path.same, Path.same_iff.mp hsame] using hk

/-! ### Runs -/

theorem run_eq_ok_iff_forall₂ {outputs : List Output} : g.run s ids = .ok outputs ↔
    g.checkLanguage s.model (g.selected s ids) = .ok () ∧
      List.Forall₂ (fun j o => g.make s j = .ok o)
      (firstByPath ((g.pairs s ids).filterMap (g.jobOf s))) outputs := by
  rw [run_eq_ok_iff, ← jobs_selected, jobs_pairs, mapM_eq_ok_iff_forall₂]

/-- Where each path can be rendered for the first pair that gives it, and only there, the run has
outputs. -/
theorem exists_outputs_iff : (∃ outputs, g.run s ids = .ok outputs) ↔
    g.checkLanguage s.model (g.selected s ids) = .ok () ∧
      ∀ i j, g.FirstFor s (g.pairs s ids) i j → ∃ content,
      g.render s j.file j.tag = .ok content := by
  constructor
  · rintro ⟨outputs, h⟩
    obtain ⟨hlanguage, hmade⟩ := run_eq_ok_iff_forall₂.mp h
    refine ⟨hlanguage, fun i j hfirst => ?_⟩
    obtain ⟨o, -, hmake⟩ := exists_of_forall₂ hmade j hfirst.mem_firstByPath
    exact ⟨o.content, (make_eq_ok_iff.mp hmake).1⟩
  · rintro ⟨hlanguage, hrenders⟩
    obtain ⟨places, -, hplaces⟩ := exists_places g s (g.pairs s ids)
    have hmade : ∀ j ∈ firstByPath ((g.pairs s ids).filterMap (g.jobOf s)),
        ∃ o, g.make s j = .ok o := by
      intro j hj
      obtain ⟨i, -, hfirst⟩ := exists_of_forall₂ hplaces.flip j hj
      obtain ⟨content, hcontent⟩ := hrenders i j hfirst
      exact ⟨⟨j.path, content, j.file.id, j.tag⟩, make_eq_ok_iff.mpr ⟨hcontent, rfl, rfl, rfl⟩⟩
    obtain ⟨outputs, houtputs⟩ := exists_mapM hmade
    refine ⟨outputs, run_eq_ok_iff.mpr ⟨hlanguage, ?_⟩⟩
    rw [← jobs_selected, jobs_pairs, houtputs]

section Outputs

variable {outputs : List Output}

theorem distinct_of_run (h : g.run s ids = .ok outputs) :
    outputs.Pairwise fun o o' => o.path.same o'.path = false := by
  have hpaths : List.Forall₂ (fun (o : Output) (j : Job) => o.path = j.path) outputs
      (firstByPath ((g.pairs s ids).filterMap (g.jobOf s))) :=
    (run_eq_ok_iff_forall₂.mp h).2.flip.imp fun _ _ hmake => (of_make hmake).1
  rw [← List.forall₂_map_left_iff (R := fun p (j : Job) => p = j.path),
    ← List.forall₂_map_right_iff (R := Eq), List.forall₂_eq_eq_eq] at hpaths
  have hapart := pairwise_firstByPath ((g.pairs s ids).filterMap (g.jobOf s))
  rw [← List.pairwise_map (f := Job.path) (R := fun p q => p.same q = false), ← hpaths,
    List.pairwise_map] at hapart
  exact hapart

/-- There is an output for each path that some pair gives, and for no other. -/
theorem exists_output_iff (h : g.run s ids = .ok outputs) (p : Path) :
    (∃ o ∈ outputs, o.path.same p = true) ↔
      ∃ f tag q, (f, tag) ∈ g.pairs s ids ∧ g.outputPath s f tag = some q ∧ q.same p = true := by
  obtain ⟨-, hmade⟩ := run_eq_ok_iff_forall₂.mp h
  constructor
  · rintro ⟨o, ho, hsame⟩
    obtain ⟨j, hj, hmake⟩ := exists_of_forall₂ hmade.flip o ho
    obtain ⟨pair, hpair, hj⟩ := List.mem_filterMap.mp (firstByPath_subset hj)
    obtain ⟨rfl, hpath⟩ := jobOf_eq_some_iff.mp hj
    exact ⟨_, _, _, hpair, hpath, (of_make hmake).1 ▸ hsame⟩
  · rintro ⟨f, tag, q, hpair, hpath, hsame⟩
    have hj : ⟨q, f, tag⟩ ∈ (g.pairs s ids).filterMap (g.jobOf s) :=
      List.mem_filterMap.mpr ⟨_, hpair, jobOf_eq_some_iff.mpr ⟨rfl, hpath⟩⟩
    obtain ⟨j, hj, hsame'⟩ := exists_firstByPath hj
    obtain ⟨o, ho, hmake⟩ := exists_of_forall₂ hmade j hj
    refine ⟨o, ho, ?_⟩
    rw [Path.same_iff] at hsame hsame' ⊢
    rw [(of_make hmake).1, hsame', hsame]

/-- Outputs are rendered for the first pairs of their paths, and stand in the order of these. -/
theorem exists_places_of_run (h : g.run s ids = .ok outputs) :
    ∃ places : List Nat, places.Pairwise (· < ·) ∧
      List.Forall₂ (fun i o => ∃ f, g.FirstFor s (g.pairs s ids) i ⟨o.path, f, o.tag⟩ ∧
        o.file = f.id ∧
        g.render s f o.tag = .ok o.content) places outputs := by
  obtain ⟨places, hsorted, hplaces⟩ := exists_places g s (g.pairs s ids)
  refine ⟨places, hsorted,
    forall₂_comp (fun i j o hfirst hmake => ?_) hplaces (run_eq_ok_iff_forall₂.mp h).2⟩
  obtain ⟨hrender, hpath, hfile, htag⟩ := make_eq_ok_iff.mp hmake
  rw [hpath, htag]
  exact ⟨j.file, hfirst, hfile, hrender⟩

end Outputs

/-- A run that fails leaves a watcher of it with the disk and the record that there were. -/
theorem watcher_of_error {e : GeneratorError} (h : g.run s ids = .error e) (kept : PathSet)
    (disk : Disk) :
    g.watcher.onFilesChanged s ids kept disk = (kept, disk, .error e) := by
  simp only [watcher, h]

/-- **A run renders each path once, for the first pair that gives it, or fails as a whole.**  The
pairs are those of a file that is chosen, all files where no ids are given, and a tag of the
generator that it carries.  The outputs go to different paths, which are all that the pairs of
selected files and their tags give; each is rendered for the first pair that gives its path, and
they stand in the order of these pairs.  There are outputs exactly if the domains are there in the
language and all these pairs render; **where one does not, a watcher changes neither the disk nor
its record**. -/
theorem outputs_exact (g : Generator) (s : Store) (ids : List FileId) :
    (∀ f tag, (f, tag) ∈ g.pairs s ids ↔
      (ids = [] ∧ f ∈ s.model.files ∨ ∃ id ∈ ids, s.model.file? id = some f) ∧
        tag ∈ g.tags ∧ f.hasTag tag = true) ∧
    (∀ outputs, g.run s ids = .ok outputs →
      (outputs.Pairwise fun o o' => o.path.same o'.path = false) ∧
      (∀ p, (∃ o ∈ outputs, o.path.same p = true) ↔
        ∃ f tag q, (f, tag) ∈ g.pairs s ids ∧ g.outputPath s f tag = some q ∧ q.same p = true) ∧
      ∃ places : List Nat, places.Pairwise (· < ·) ∧
        List.Forall₂ (fun i o => ∃ f, g.FirstFor s (g.pairs s ids) i ⟨o.path, f, o.tag⟩ ∧
          o.file = f.id ∧
          g.render s f o.tag = .ok o.content) places outputs) ∧
    ((∃ outputs, g.run s ids = .ok outputs) ↔ g.checkLanguage s.model (g.selected s ids) = .ok () ∧
      ∀ i j, g.FirstFor s (g.pairs s ids) i j → ∃ content, g.render s j.file j.tag = .ok content) ∧
    ∀ i j e, g.FirstFor s (g.pairs s ids) i j → g.render s j.file j.tag = .error e →
      ∃ e', g.run s ids = .error e' ∧
        ∀ kept disk, g.watcher.onFilesChanged s ids kept disk = (kept, disk, .error e') := by
  refine ⟨fun f tag => mem_pairs.trans (and_congr_left' mem_chosen),
    fun outputs h => ⟨distinct_of_run h, exists_output_iff h, exists_places_of_run h⟩,
    exists_outputs_iff, fun i j e hfirst hfails => ?_⟩
  cases hrun : g.run s ids with
  | error e' => exact ⟨e', rfl, watcher_of_error hrun⟩
  | ok outputs =>
    obtain ⟨content, hcontent⟩ := (exists_outputs_iff.mp ⟨outputs, hrun⟩).2 i j hfirst
    exact absurd (hfails.symm.trans hcontent) (by simp)

open Store (twoTagged oneOutput outputOf)

/-- The same pairs and paths, and nothing renders. -/
def noOutput : Generator :=
  { oneOutput with render := fun _ f _ => .error (.render "noOutput" f.name "no template") }

/-- Of two files of one path, the output is rendered for the first, or for the second if that is the
only one chosen; and where the first does not render, a watcher changes nothing. -/
theorem outputs_of_twoTagged :
    (oneOutput.run twoTagged.link.1 [⟨1⟩] = .ok [outputOf ⟨1⟩ "B"] ∧
      ∃ f, (f, "t") ∈ oneOutput.pairs twoTagged.link.1 [⟨1⟩] ∧ f.id = ⟨1⟩ ∧
        twoTagged.link.1.model.file? ⟨1⟩ = some f) ∧
    oneOutput.run twoTagged.link.1 [] = .ok [outputOf ⟨0⟩ "A"] ∧
      ∃ i f, oneOutput.FirstFor twoTagged.link.1 (oneOutput.pairs twoTagged.link.1 []) i
        ⟨⟨"all.txt"⟩, f, "t"⟩ ∧
        f.id = ⟨0⟩ ∧ ∃ e, noOutput.run twoTagged.link.1 [] = .error e ∧
          ∀ kept disk, noOutput.watcher.onFilesChanged twoTagged.link.1 [] kept disk = (kept, disk,
            .error e) := by
  have hsecond : ∃ f, (f, "t") ∈ oneOutput.pairs twoTagged.link.1 [⟨1⟩] ∧ f.id = ⟨1⟩ ∧
      twoTagged.link.1.model.file? ⟨1⟩ = some f := by
    obtain ⟨hpairs, hrun, -⟩ := outputs_exact oneOutput twoTagged.link.1 [⟨1⟩]
    obtain ⟨-, -, places, -, hplaces⟩ := hrun _ Store.oneOutput_second
    obtain ⟨i, rest, ⟨f, hfirst, hfile, -⟩, -, -⟩ := List.forall₂_cons_right_iff.mp hplaces
    have hpair := List.mem_of_getElem? hfirst.pair
    obtain ⟨⟨hnil, -⟩ | ⟨id, hid, hfound⟩, -⟩ := (hpairs f "t").mp hpair
    · exact absurd hnil (List.cons_ne_nil _ _)
    · rw [List.mem_singleton.mp hid] at hfound
      exact ⟨f, hpair, hfile.symm, hfound⟩
  obtain ⟨-, -, places, -, hplaces⟩ :=
    (outputs_exact oneOutput twoTagged.link.1 []).2.1 _ Store.oneOutput_all
  obtain ⟨i, rest, ⟨f, hfirst, hfile, -⟩, -, -⟩ := List.forall₂_cons_right_iff.mp hplaces
  have hsame : noOutput.FirstFor twoTagged.link.1 (noOutput.pairs twoTagged.link.1 []) i
      ⟨⟨"all.txt"⟩, f, "t"⟩ :=
    ⟨hfirst.pair, hfirst.path, hfirst.first⟩
  exact ⟨⟨Store.oneOutput_second, hsecond⟩, Store.oneOutput_all, i, f, hfirst, hfile.symm,
    (outputs_exact noOutput _ _).2.2.2 i _ _ hsame rfl⟩

end Generator

end EntityModel
