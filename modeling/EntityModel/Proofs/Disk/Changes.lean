import EntityModel.Disk.Basic
import EntityModel.Proofs.Path.NormalForms
import EntityModel.Proofs.Source.Tables

/-!
# What a change of a disk spares

Writing outputs, pruning and writing a lock file change a disk at the places of a few paths, and
else only make directories.  `Spares` says so of any number of such steps: directories stay, files
elsewhere stay and no new ones come, and a walk that leaves those places out finds what it found
before.
-/

namespace EntityModel.Disk

variable {d d' : Disk}

/-! ### Deleting files

Deleting a file takes it off its place and leaves everything else as it was (`node?_remove`).  No
directory ever goes, so a path that leads somewhere on a disk from which files were deleted leads to
the same place before (`locate_of_fewer`).
-/

/-! ### Places -/

/-- **Removing a place leaves all others as they are.** -/
theorem node?_remove {place : Place} (hplace : place ≠ []) (other : Place) :
    (d.remove place).node? other = if other = place then none else d.node? other := by
  unfold node? remove
  by_cases hroot : other = []
  · subst hroot
    rw [if_neg (Ne.symm hplace)]
    rfl
  · have hempty : other.isEmpty ≠ true := by simpa using hroot
    rw [if_neg hempty, if_neg hempty, lookup_filter_key (· != place) d.nodes other]
    by_cases hother : other = place
    · rw [if_pos hother, if_neg (by simpa using hother)]
    · rw [if_neg hother, if_pos (by simpa using hother)]

/-! ### Paths -/

theorem requireDirectory_eq_ok {place : Place} :
    d.requireDirectory place = .ok () ↔ d.node? place = some .directory := by
  unfold requireDirectory
  split <;> simp_all

/-- A way that is open where there are fewer directories is open where there are more. -/
theorem locateFrom_of_fewer (h : ∀ place, d'.node? place = some .directory →
      d.node? place = some .directory) (cs : List Component) : ∀ {start place : Place},
      d'.locateFrom start cs = .ok place → d.locateFrom start cs = .ok place := by
  have hrequire : ∀ {at' : Place}, d'.requireDirectory at' = .ok () →
      d.requireDirectory at' = .ok () :=
    fun hd => requireDirectory_eq_ok.mpr (h _ (requireDirectory_eq_ok.mp hd))
  induction cs with
  | nil => exact fun hl => hl
  | cons c rest ih =>
    intro start place hl
    cases c with
    | root => exact ih hl
    | current => exact ih hl
    | parent =>
      rw [locateFrom] at hl ⊢
      cases hd : d'.requireDirectory start with
      | error e => rw [hd] at hl; exact absurd hl (by simp [bind, Except.bind])
      | ok _ =>
        rw [hd] at hl
        rw [hrequire hd]
        exact ih hl
    | name name =>
      rw [locateFrom] at hl ⊢
      cases hd : d'.requireDirectory start with
      | error e => rw [hd] at hl; exact absurd hl (by simp [bind, Except.bind])
      | ok _ =>
        rw [hd] at hl
        rw [hrequire hd]
        by_cases hlong : name.utf8ByteSize > nameLimit
        · simp [hlong, bind, Except.bind] at hl
        · simp only [hlong, bind, Except.bind, if_false] at hl ⊢
          exact ih hl

/-- **A path leads to the same place where there are more directories.** -/
theorem locate_of_fewer (h : ∀ place, d'.node? place = some .directory →
      d.node? place = some .directory)
    {p : Path} {place : Place} (hl : d'.locate p = .ok place) : d.locate p = .ok place := by
  unfold locate locateAll at hl ⊢
  split at hl
  · exact absurd hl (by simp)
  next hnul =>
    rw [if_neg hnul]
    exact locateFrom_of_fewer h _ hl

/-! ### Files -/

/-- **What is deleted is the file that the path leads to**, and nothing else. -/
theorem delete_eq_ok {p : Path} (h : d.delete p = .ok d') :
    ∃ place content, d.locate p = .ok place ∧ d.node? place = some (.file content) ∧
      d' = d.remove place := by
  unfold delete lookup at h
  cases hl : d.locate p with
  | error e => rw [hl] at h; exact absurd h (by simp [bind, Except.bind])
  | ok place =>
    rw [hl] at h
    cases hn : d.node? place with
    | none => simp [hn, bind, Except.bind] at h
    | some node =>
      cases node with
      | directory => simp [hn, bind, Except.bind] at h
      | file content =>
        refine ⟨place, content, rfl, hn, ?_⟩
        by_cases hdir : p.namesDirectory = true
        · simp [hn, hdir, bind, Except.bind] at h
        · simpa [hn, hdir, bind, Except.bind, pure, Except.pure, eq_comm] using h

theorem ne_nil_of_file {place : Place} {content : Content}
    (h : d.node? place = some (.file content)) :
    place ≠ [] := by
  rintro rfl
  exact absurd h (by simp [node?])

/-! ### One node -/

/-- **Putting a node leaves all other places as they are.** -/
theorem node?_put {place : Place} (hplace : place ≠ []) (node : DiskNode) (other : Place) :
    (d.put place node).node? other = if other = place then some node else d.node? other := by
  unfold node? put
  by_cases hroot : other = []
  · subst hroot
    rw [if_neg (Ne.symm hplace)]
    rfl
  · have hempty : other.isEmpty ≠ true := by simpa using hroot
    rw [if_neg hempty, if_neg hempty, List.lookup_append,
      lookup_filter_key (· != place) d.nodes other]
    by_cases hother : other = place
    · simp [hother]
    · simp [hother, List.lookup_cons, beq_eq_false_iff_ne.mpr hother]

theorem ne_nil_of_not_directory {place : Place} (h : d.node? place ≠ some .directory) :
    place ≠ [] := by
  rintro rfl
  exact h rfl

theorem ne_nil_of_none {place : Place} (h : d.node? place = none) : place ≠ [] := by
  rintro rfl
  exact absurd h (by simp [node?])

/-- A node that is put in no directory's stead leaves all directories. -/
theorem directory_put {place other : Place} (hplace : d.node? place ≠ some .directory)
    (node : DiskNode)
    (hother : d.node? other = some .directory) :
    (d.put place node).node? other = some .directory := by
  have hne : other ≠ place := fun he => hplace (he ▸ hother)
  rw [node?_put (ne_nil_of_not_directory hplace), if_neg hne]
  exact hother

/-! ### What a walk finds -/

/-- The names that lead from a place to a file below it. -/
def below? (place : Place) : Place × DiskNode → Option Place
  | (at', .file _) =>
    if place.isPrefixOf at' && at' != place then some (at'.drop place.length) else none
  | (_, .directory) => none

theorem filesBelow_eq (d : Disk) (place : Place) :
    d.filesBelow place = (d.nodes.filterMap (below? place)).mergeSort walkOrder := by
  show (d.nodes.filterMap _).mergeSort walkOrder = _
  congr 2
  funext e
  obtain ⟨at', _ | content⟩ := e <;> rfl

theorem below?_eq_some {place : Place} {e : Place × DiskNode} {names : Place}
    (h : below? place e = some names) :
    e.1 = place ++ names ∧ names ≠ [] := by
  obtain ⟨at', _ | content⟩ := e
  · exact absurd h (by simp [below?])
  · simp only [below?, Option.ite_none_right_eq_some, Bool.and_eq_true, List.isPrefixOf_iff_prefix,
      bne_iff_ne] at h
    obtain ⟨⟨⟨names', rfl⟩, hne⟩, hnames⟩ := h
    rw [List.drop_left, Option.some.injEq] at hnames
    subst hnames
    exact ⟨rfl, fun hnil => hne (by rw [hnil, List.append_nil])⟩

theorem pairwise_walkOrder (places : List Place) :
    (places.mergeSort walkOrder).Pairwise fun p q => walkOrder p q = true := by
  refine List.pairwise_mergeSort (fun _ _ _ => Std.TransCmp.isLE_trans) (fun p q => ?_) places
  have hswap : compare q p = (compare p q).swap := Std.OrientedCmp.eq_swap
  unfold walkOrder
  rw [hswap]
  cases compare p q <;> rfl

/-- Walks go by a total order of the names, so what is left out on the way may be left out
before. -/
theorem filter_mergeSort (keep : Place → Bool) (places : List Place) :
    (places.mergeSort walkOrder).filter keep = (places.filter keep).mergeSort walkOrder := by
  have hanti : ∀ p q : Place, walkOrder p q = true → walkOrder q p = true → p = q :=
    fun p q hpq hqp =>
    Std.LawfulEqCmp.compare_eq_iff_eq.mp (Std.OrientedCmp.isLE_antisymm hpq hqp)
  refine List.Perm.eq_of_pairwise (fun p q _ _ => hanti p q)
    ((pairwise_walkOrder places).filter keep) (pairwise_walkOrder _) ?_
  exact ((List.mergeSort_perm ..).filter keep).trans (List.mergeSort_perm ..).symm

section Found

variable {β : Type} (place : Place) (f : Place → Option β)

/-- What a walk makes of the files below a place hangs on those alone that it makes something of. -/
theorem found_congr
    (h : d'.nodes.filterMap (fun e => (below? place e).filter fun names => (f names).isSome)
      = d.nodes.filterMap fun e => (below? place e).filter fun names => (f names).isSome) :
    (d'.filesBelow place).filterMap f = (d.filesBelow place).filterMap f := by
  have hsorted : ∀ places : List Place, (places.mergeSort walkOrder).filterMap f
      = ((places.filter fun names => (f names).isSome).mergeSort walkOrder).filterMap f :=
      fun places => by
    rw [← filter_mergeSort, List.filterMap_filter]
    refine List.filterMap_congr fun names _ => ?_
    cases f names <;> rfl
  rw [filesBelow_eq, filesBelow_eq, hsorted, hsorted (d.nodes.filterMap _), List.filter_filterMap,
    List.filter_filterMap, h]

def pick (e : Place × DiskNode) : Option Place :=
  (below? place e).filter fun names => (f names).isSome

theorem pick_eq_none {at' : Place} (h : ∀ names, names ≠ [] → at' = place ++ names → f names = none)
    (node : DiskNode) : pick place f (at', node) = none := by
  unfold pick
  cases hbelow : below? place (at', node) with
  | none => rfl
  | some names =>
    obtain ⟨hat, hnames⟩ := below?_eq_some hbelow
    rw [Option.filter_some, h names hnames hat]
    rfl

theorem filterMap_filter_ne {at' : Place} (h : ∀ e ∈ d.nodes, e.1 = at' → pick place f e = none) :
    (d.nodes.filter (·.1 != at')).filterMap (pick place f) = d.nodes.filterMap (pick place f) := by
  rw [List.filterMap_filter]
  refine List.filterMap_congr fun e he => ?_
  by_cases hat : e.1 = at'
  · rw [h e he hat, ite_self]
  · rw [if_pos (by simpa using hat)]

theorem found_put {at' : Place} (h : ∀ names, names ≠ [] → at' = place ++ names → f names = none)
    (node : DiskNode) :
    ((d.put at' node).filesBelow place).filterMap f = (d.filesBelow place).filterMap f := by
  refine found_congr place f ?_
  show (d.nodes.filter (·.1 != at') ++ [(at', node)]).filterMap (pick place f) = _
  rw [List.filterMap_append, filterMap_filter_ne place f fun e _ hat => ?_, List.filterMap_cons,
    pick_eq_none place f h node]
  · exact List.append_nil _
  · obtain ⟨_, node'⟩ := e
    subst hat
    exact pick_eq_none place f h node'

theorem found_remove {at' : Place}
    (h : ∀ names, names ≠ [] → at' = place ++ names → f names = none) :
    ((d.remove at').filesBelow place).filterMap f = (d.filesBelow place).filterMap f := by
  refine found_congr place f (filterMap_filter_ne place f fun e _ hat => ?_)
  obtain ⟨_, node⟩ := e
  subst hat
  exact pick_eq_none place f h node

theorem found_put_directory {at' : Place} (h : d.node? at' = none) :
    ((d.put at' .directory).filesBelow place).filterMap f = (d.filesBelow place).filterMap f := by
  have hnone : ∀ e ∈ d.nodes, e.1 ≠ at' := fun e he hat => by
    unfold node? at h
    rw [if_neg (by simpa using ne_nil_of_none h), List.lookup_eq_none_iff] at h
    exact bne_iff_ne.mp (h e he) hat.symm
  refine found_congr place f ?_
  show (d.nodes.filter (·.1 != at') ++ [(at', DiskNode.directory)]).filterMap (pick place f) = _
  rw [List.filterMap_append, filterMap_filter_ne place f fun e he hat => absurd hat (hnone e he)]
  exact List.append_nil _

end Found

/-! ### Changes -/

/-- How a disk may become another where the files of a few paths are at stake. -/
structure Spares (touched : List Path) (d d' : Disk) : Prop where
  directory : ∀ place, d.node? place = some .directory → d'.node? place = some .directory
  file : ∀ place, (∀ p ∈ touched, p.normalize ≠ Place.form place) →
    ∀ content, d'.node? place = some (.file content) ↔ d.node? place = some (.file content)
  found : ∀ {β : Type} (place : Place) (f : Place → Option β),
    (∀ p ∈ touched, ∀ names, names ≠ [] → p.normalize = Place.form (place ++ names) →
      f names = none) →
      (d'.filesBelow place).filterMap f = (d.filesBelow place).filterMap f

namespace Spares

variable {touched : List Path} {p : Path}

theorem refl (touched : List Path) (d : Disk) : Spares touched d d where
  directory _ h := h
  file _ _ _ := Iff.rfl
  found _ _ _ := rfl

theorem trans {d'' : Disk} (h : Spares touched d d') (h' : Spares touched d' d'') :
    Spares touched d d'' where
  directory place hd := h'.directory place (h.directory place hd)
  file place hp content := (h'.file place hp content).trans (h.file place hp content)
  found place f hf := (h'.found place f hf).trans (h.found place f hf)

theorem mono {more : List Path} (h : Spares touched d d') (hmore : ∀ p ∈ touched, p ∈ more) :
    Spares more d d' where
  directory := h.directory
  file place hp := h.file place fun p hpt => hp p (hmore p hpt)
  found place f hf := h.found place f fun p hpt => hf p (hmore p hpt)

theorem put {place : Place} (hp : p ∈ touched) (hform : p.normalize = Place.form place)
    (hplace : d.node? place ≠ some .directory) (content : Content) :
    Spares touched d (d.put place (.file content)) where
  directory _ hd := directory_put hplace _ hd
  file other hother content' := by
    have hne : other ≠ place := fun he => hother p hp (he ▸ hform)
    rw [node?_put (ne_nil_of_not_directory hplace), if_neg hne]
  found place' f hf :=
    found_put place' f (fun names hnames hat => hf p hp names hnames (hat ▸ hform)) _

theorem remove {place : Place} {content : Content} (hp : p ∈ touched)
    (hform : p.normalize = Place.form place)
    (hfile : d.node? place = some (.file content)) : Spares touched d (d.remove place) where
  directory other hd := by
    have hne : other ≠ place := by
      rintro rfl
      rw [hd] at hfile
      exact absurd hfile (by simp)
    rw [node?_remove (ne_nil_of_file hfile), if_neg hne]
    exact hd
  file other hother content' := by
    have hne : other ≠ place := fun he => hother p hp (he ▸ hform)
    rw [node?_remove (ne_nil_of_file hfile), if_neg hne]
  found place' f hf :=
    found_remove place' f fun names hnames hat => hf p hp names hnames (hat ▸ hform)

theorem putDirectory {place : Place} (hnone : d.node? place = none) (touched : List Path) :
    Spares touched d (d.put place .directory) where
  directory other hd := by
    rw [node?_put (ne_nil_of_none hnone), hd, ite_self]
  file other _ content := by
    rw [node?_put (ne_nil_of_none hnone)]
    by_cases he : other = place
    · rw [he, hnone]
      simp
    · rw [if_neg he]
  found place' f _ := found_put_directory place' f hnone

end Spares

/-! ### Reading and writing -/

theorem read_eq_ok {p : Path} {text : String} :
    d.read p = .ok text ↔ ∃ place, d.locate p = .ok place ∧
    d.node? place = some (.file (.text text)) ∧
    p.namesDirectory = false := by
  unfold read lookup
  cases hl : d.locate p with
  | error e => simp [bind, Except.bind]
  | ok place =>
    cases hn : d.node? place with
    | none => simp [hn, bind, Except.bind]
    | some node =>
      obtain _ | content := node
      · simp [hn, bind, Except.bind]
      · by_cases hname : p.namesDirectory = true
        · simp [hn, hname, bind, Except.bind]
        · cases content <;> simp [hn, hname, bind, Except.bind]

theorem isDirectory_iff {p : Path} :
    d.isDirectory p = true ↔ ∃ place, d.locate p = .ok place ∧ d.node? place = some .directory := by
  unfold isDirectory lookup
  cases hl : d.locate p with
  | error e => simp [bind, Except.bind]
  | ok place =>
    cases hn : d.node? place with
    | none => simp [hn, bind, Except.bind]
    | some node =>
      obtain _ | content := node
      · simp [hn, bind, Except.bind]
      · by_cases hname : p.namesDirectory = true <;> simp [hn, hname, bind, Except.bind]

theorem write_eq_ok {p : Path} {content : Content} : d.write p content = .ok d' ↔
    ∃ place, d.locate p = .ok place ∧ d.node? place ≠ some .directory ∧ p.namesDirectory = false ∧
      d.requireDirectory (if p.endsInDot then place else place.dropLast) = .ok () ∧
      d' = d.put place (.file content) := by
  unfold write
  cases hl : d.locate p with
  | error e => simp [bind, Except.bind]
  | ok place =>
    cases hr : d.requireDirectory (if p.endsInDot then place else place.dropLast) with
    | error e => simp [hr, bind, Except.bind]
    | ok _ =>
      cases hname : p.namesDirectory with
      | true => simp [hr, bind, Except.bind]
      | false =>
        simp only [hr, bind, Except.bind, Bool.false_eq_true, if_false]
        split
        · next hdirectory => simp [hdirectory]
        · next hplace =>
          refine ⟨fun h => ⟨place, rfl, hplace, trivial, hr, (Except.ok.inj h).symm⟩, ?_⟩
          rintro ⟨_, hsame, -, -, -, rfl⟩
          rw [Except.ok.inj hsame]

/-- **What was written is read back.** -/
theorem read_of_write {p : Path} {text : String} (h : d.write p (.text text) = .ok d') :
    d'.read p = .ok text := by
  obtain ⟨place, hl, hplace, hname, -, rfl⟩ := write_eq_ok.mp h
  refine read_eq_ok.mpr ⟨place, locate_of_fewer (fun _ hd => directory_put hplace _ hd) hl, ?_,
    hname⟩
  rw [node?_put (ne_nil_of_not_directory hplace), if_pos rfl]

/-- Writing the same once more is possible and changes nothing. -/
theorem write_again {p : Path} {content : Content} (h : d.write p content = .ok d') :
    ∃ d'', d'.write p content = .ok d'' ∧ ∀ place, d''.node? place = d'.node? place := by
  obtain ⟨place, hl, hplace, hname, hdirectory, rfl⟩ := write_eq_ok.mp h
  have hnode : (d.put place (.file content)).node? place = some (.file content) := by
    rw [node?_put (ne_nil_of_not_directory hplace), if_pos rfl]
  have hagain : (d.put place (.file content)).node? place ≠ some .directory := by simp [hnode]
  refine ⟨_, write_eq_ok.mpr ⟨place, ?_, hagain, hname, ?_, rfl⟩, fun other => ?_⟩
  · exact locate_of_fewer (fun _ hd => directory_put hplace _ hd) hl
  · exact requireDirectory_eq_ok.mpr (directory_put hplace _ (requireDirectory_eq_ok.mp hdirectory))
  · rw [node?_put (ne_nil_of_not_directory hagain)]
    by_cases he : other = place
    · rw [if_pos he, he, hnode]
    · rw [if_neg he]

theorem createDirectory_eq_ok {cs : List Component} (h : d.createDirectory cs = .ok d') :
    ∃ place, d.node? place = none ∧ d' = d.put place .directory := by
  unfold createDirectory at h
  cases hl : d.locateAll cs with
  | error e => exact absurd h (by simp [hl, bind, Except.bind])
  | ok place =>
    cases hr : d.requireDirectory place.dropLast with
    | error e => exact absurd h (by simp [hl, hr, bind, Except.bind])
    | ok _ =>
      cases hn : d.node? place with
      | some node => exact absurd h (by simp [hl, hr, hn, bind, Except.bind])
      | none => exact ⟨place, hn, by simpa [hl, hr, hn, bind, Except.bind, eq_comm] using h⟩

namespace Spares

variable {touched : List Path} {p : Path}

theorem locate (h : Spares touched d d') {place : Place} (hl : d.locate p = .ok place) :
    d'.locate p = .ok place :=
  locate_of_fewer h.directory hl

/-- **A file that is not at stake is read as before.** -/
theorem read (h : Spares touched d d') (hp : p.isAbsolute = true)
    (hother : ∀ t ∈ touched, t.normalize ≠ p.normalize) {text : String}
    (hread : d.read p = .ok text) :
    d'.read p = .ok text := by
  obtain ⟨place, hl, hfile, hname⟩ := read_eq_ok.mp hread
  refine read_eq_ok.mpr ⟨place, h.locate hl, (h.file place (fun t ht => ?_) _).mpr hfile, hname⟩
  rw [← normalize_of_locate hp hl]
  exact hother t ht

theorem write {content : Content} (hp : p ∈ touched) (habsolute : p.isAbsolute = true)
    (hwrite : d.write p content = .ok d') : Spares touched d d' := by
  obtain ⟨place, hl, hplace, -, -, rfl⟩ := write_eq_ok.mp hwrite
  exact .put hp (normalize_of_locate habsolute hl) hplace content

theorem delete (hp : p ∈ touched) (habsolute : p.isAbsolute = true)
    (hdelete : d.delete p = .ok d') :
    Spares touched d d' := by
  obtain ⟨place, content, hl, hfile, rfl⟩ := delete_eq_ok hdelete
  exact .remove hp (normalize_of_locate habsolute hl) hfile

theorem ensureDirectory {cs : List Component} (h : d.ensureDirectory cs = .ok d')
    (touched : List Path) :
    Spares touched d d' := by
  unfold Disk.ensureDirectory at h
  split at h
  · next hcreate =>
    obtain ⟨place, hnone, rfl⟩ := createDirectory_eq_ok hcreate
    rw [← Except.ok.inj h]
    exact .putDirectory hnone touched
  · split at h
    · rw [← Except.ok.inj h]
      exact .refl touched d
    · exact absurd h (by simp)

/-- Making directories puts no file at stake, even if it fails. -/
theorem createAllReversed (touched : List Path) (cs : List Component) :
    ∀ d : Disk, Spares touched d (d.createAllReversed cs).1 := by
  induction cs with
  | nil => exact fun d => .refl touched d
  | cons c above ih =>
    intro d
    unfold Disk.createAllReversed
    cases hfirst : d.ensureDirectory (c :: above).reverse with
    | ok made =>
      simp only [hfirst]
      exact ensureDirectory hfirst touched
    | error e =>
      by_cases hmissing : e = .noEntry
      · subst hmissing
        -- The directories above come first, and then the first try is made once more.
        have habove := ih d
        cases hmade : d.createAllReversed above with
        | mk made outcome =>
          rw [hmade] at habove
          cases outcome with
          | error e => simpa only [hfirst, hmade] using habove
          | ok _ =>
            cases hsecond : made.ensureDirectory (c :: above).reverse with
            | ok last =>
              simpa only [hfirst, hmade, hsecond]
                using habove.trans (ensureDirectory hsecond touched)
            | error e => simpa only [hfirst, hmade, hsecond] using habove
      · simp only [hfirst]
        exact .refl touched d

theorem createAll (touched : List Path) (d : Disk) (p : Path) :
    Spares touched d (d.createAll p).1 :=
  createAllReversed touched p.components.reverse d

end Spares

end EntityModel.Disk
