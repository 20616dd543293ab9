import EntityModel.Generation.Generator
import EntityModel.Proofs.Disk.Changes
import EntityModel.Proofs.Generation.Pruning
import Mathlib.Data.String.Basic

/-!
# What a run leaves on a disk

A run writes its outputs, prunes, and writes its lock file.  Each of the three puts the files of
some paths at stake and no others (`Disk.Spares`).  So outputs of different normal forms are all
there in the end (`Output.writeAll_ok`), and where they are there already nothing is written
(`Output.writeAll_of_current`).  The entries of a lock file stand in strict order
(`LockFile.pairwise_files`).
-/

namespace EntityModel

/-! ### Sets of paths -/

instance : Std.LawfulEqCmp (compare : Component → Component → Ordering) where
  compare_self {c} := by
    have htext : ∀ text : String, compare text text = .eq := fun _ => Std.ReflCmp.compare_self
    cases c with
    | name text => simpa [compare, instOrdComponent.ord] using htext text
    | _ => rfl
  eq_of_compare {c c'} h := by
    have htext : ∀ {a b : String}, compare a b = .eq → a = b := Std.LawfulEqCmp.eq_of_compare
    cases c <;> cases c' <;> simp_all [compare, instOrdComponent.ord]
    exact htext h

namespace PathSet

variable {p q : Path} {s : PathSet}

theorem mem_insert (h : q ∈ insert p s) : q = p ∨ q ∈ s := by
  induction s with
  | nil => exact Or.inl (List.mem_singleton.mp h)
  | cons r rest ih =>
    unfold insert at h
    split at h
    · exact List.mem_cons.mp h
    · exact Or.inr h
    · rcases List.mem_cons.mp h with rfl | h
      · exact Or.inr List.mem_cons_self
      · exact (ih h).imp_right (List.mem_cons_of_mem r)

theorem mem_insert_of_mem (p : Path) (h : q ∈ s) : q ∈ insert p s := by
  induction s with
  | nil => exact absurd h List.not_mem_nil
  | cons r rest ih =>
    unfold insert
    split
    · exact List.mem_cons_of_mem p h
    · exact h
    · rcases List.mem_cons.mp h with rfl | h
      · exact List.mem_cons_self
      · exact List.mem_cons_of_mem r (ih h)

/-- The same path is in the set then, if perhaps in the text of one that was there. -/
theorem exists_mem_insert (p : Path) (s : PathSet) :
    ∃ q ∈ insert p s, q.components = p.components := by
  induction s with
  | nil => exact ⟨p, List.mem_cons_self, rfl⟩
  | cons r rest ih =>
    unfold insert
    split
    · exact ⟨p, List.mem_cons_self, rfl⟩
    · next heq => exact ⟨r, List.mem_cons_self, (Std.LawfulEqCmp.eq_of_compare heq).symm⟩
    · obtain ⟨q, hq, he⟩ := ih
      exact ⟨q, List.mem_cons_of_mem r hq, he⟩

theorem mem_insertAll {ps : List Path} : ∀ {s : PathSet}, q ∈ insertAll s ps → q ∈ s ∨ q ∈ ps := by
  induction ps with
  | nil => exact fun h => Or.inl h
  | cons p ps ih =>
    intro s h
    rcases ih (s := insert p s) h with h | h
    · rcases mem_insert h with rfl | h
      · exact Or.inr List.mem_cons_self
      · exact Or.inl h
    · exact Or.inr (List.mem_cons_of_mem p h)

theorem mem_insertAll_of_mem (ps : List Path) : ∀ {s : PathSet}, q ∈ s → q ∈ insertAll s ps := by
  induction ps with
  | nil => exact fun h => h
  | cons p ps ih => exact fun h => ih (mem_insert_of_mem p h)

theorem exists_mem_insertAll {ps : List Path} (h : p ∈ ps) :
    ∀ s : PathSet, ∃ q ∈ insertAll s ps, q.components = p.components := by
  induction ps with
  | nil => exact absurd h List.not_mem_nil
  | cons r ps ih =>
    intro s
    rcases List.mem_cons.mp h with rfl | h
    · obtain ⟨q, hq, he⟩ := exists_mem_insert p s
      exact ⟨q, mem_insertAll_of_mem ps hq, he⟩
    · exact ih h (insert r s)

end PathSet

/-! ### Outputs -/

namespace Output

variable {d d' : Disk} {o : Output} {outputs : List Output}

/-- The outputs are on the second disk, and nothing else was at stake. -/
structure Written (outputs : List Output) (d d' : Disk) : Prop where
  spares : Disk.Spares (outputs.map path) d d'
  current : ∀ o ∈ outputs, d'.read o.path = .ok o.content

theorem isCurrent_iff : o.isCurrent d = true ↔ d.read o.path = .ok o.content := by
  unfold isCurrent
  cases d.read o.path with
  | error e => simp
  | ok text => simp

theorem writeFile_ok (habsolute : o.path.isAbsolute = true) (h : o.writeFile d = (d', .ok ())) :
    Written [o] d d' := by
  obtain ⟨made, hmade, hwrite⟩ : ∃ made, Disk.Spares [o.path] d made ∧
      made.write o.path (.text o.content) = .ok d' := by
    unfold writeFile at h
    cases hparent : o.path.parent? with
    | none =>
      rw [hparent] at h
      cases hwrite : d.write o.path (.text o.content) with
      | error e => simp [hwrite] at h
      | ok written => exact ⟨d, .refl _ d, by simp_all⟩
    | some parent =>
      have hspares := Disk.Spares.createAll [o.path] d parent
      rw [hparent] at h
      cases hmade : d.createAll parent with
      | mk made outcome =>
        rw [hmade] at hspares
        cases outcome with
        | error e => simp [hmade] at h
        | ok _ =>
          cases hwrite : made.write o.path (.text o.content) with
          | error e => simp [hmade, hwrite] at h
          | ok written => exact ⟨made, hspares, by simp_all⟩
  refine ⟨hmade.trans (.write List.mem_cons_self habsolute hwrite), fun o' ho' => ?_⟩
  rw [List.mem_singleton.mp ho']
  exact Disk.read_of_write hwrite

/-- One more output, of another normal form than those written after it. -/
theorem Written.cons {d'' : Disk} (habsolute : o.path.isAbsolute = true)
    (hother : ∀ o' ∈ outputs, o'.path.normalize ≠ o.path.normalize) (h : Written [o] d d')
    (h' : Written outputs d' d'') : Written (o :: outputs) d d'' where
  spares := (h.spares.mono (by simp)).trans (h'.spares.mono (by simp +contextual))
  current o' ho' := by
    rcases List.mem_cons.mp ho' with rfl | ho'
    · refine h'.spares.read habsolute (fun p hp => ?_) (h.current o' List.mem_cons_self)
      obtain ⟨o'', ho'', rfl⟩ := List.mem_map.mp hp
      exact hother o'' ho''
    · exact h'.current o' ho'

theorem writeAll_cons_eq_ok {rest : List Output} {paths : List Path} :
    writeAll d (o :: rest) = (d', .ok paths) ↔
    (o.isCurrent d = true ∧ writeAll d rest = (d', .ok paths)) ∨ (o.isCurrent d ≠ true ∧
      ∃ written more, o.writeFile d = (written, .ok ()) ∧ writeAll written rest = (d', .ok more) ∧
        paths = o.path :: more) := by
  rw [writeAll]
  by_cases hcurrent : o.isCurrent d = true
  · simp [hcurrent]
  · rw [if_neg hcurrent]
    rcases o.writeFile d with ⟨written, _ | _⟩
    · simp [hcurrent]
    · rcases hrest : writeAll written rest with ⟨last, _ | more⟩
      · simp [hcurrent, hrest]
      · simp [hcurrent, hrest, eq_comm, and_assoc]

/-- **Outputs of different normal forms are all there once they are written.** -/
theorem writeAll_ok (habsolute : ∀ o ∈ outputs, o.path.isAbsolute = true)
    (hdistinct : (outputs.map (·.path.normalize)).Nodup) :
    ∀ {d : Disk} {paths : List Path}, writeAll d outputs = (d', .ok paths) →
    Written outputs d d' := by
  induction outputs with
  | nil =>
    intro d paths h
    rw [← (Prod.mk.inj h).1]
    exact ⟨.refl _ d, by simp⟩
  | cons o rest ih =>
    intro d paths h
    rw [List.map_cons, List.nodup_cons, List.mem_map, not_exists] at hdistinct
    have hother : ∀ o' ∈ rest, o'.path.normalize ≠ o.path.normalize :=
      fun o' ho' he => hdistinct.1 o' ⟨ho', he⟩
    have hfirst := habsolute o List.mem_cons_self
    replace ih := @ih (fun o' ho' => habsolute o' (List.mem_cons_of_mem o ho')) hdistinct.2
    rcases writeAll_cons_eq_ok.mp h with ⟨hcurrent, h⟩ | ⟨-, written, more, hwrite, h, -⟩
    · have hkept : Written [o] d d := ⟨.refl _ d, fun o' ho' => by
        rw [List.mem_singleton.mp ho']
        exact isCurrent_iff.mp hcurrent⟩
      exact hkept.cons hfirst hother (ih h)
    · exact (writeFile_ok hfirst hwrite).cons hfirst hother (ih h)

/-- **Outputs that are there already are not written.** -/
theorem writeAll_of_current (h : ∀ o ∈ outputs, d.read o.path = .ok o.content) :
    writeAll d outputs = (d, .ok []) := by
  induction outputs with
  | nil => rfl
  | cons o rest ih =>
    rw [writeAll, if_pos (isCurrent_iff.mpr (h o List.mem_cons_self))]
    exact ih fun o' ho' => h o' (List.mem_cons_of_mem o ho')

/-- Writing two lists of outputs is writing one after the other. -/
theorem writeAll_append_eq_ok {first second : List Output} : ∀ {d : Disk} {paths : List Path},
    writeAll d (first ++ second) = (d', .ok paths) ↔ ∃ middle front back,
      writeAll d first = (middle, .ok front) ∧ writeAll middle second = (d', .ok back) ∧
      paths = front ++ back := by
  induction first with
  | nil => intro d paths; simp [writeAll]
  | cons o rest ih =>
    intro d paths
    simp only [List.cons_append, writeAll_cons_eq_ok, ih]
    constructor
    · rintro (⟨hcurrent, middle, front, back, hfront, hback, rfl⟩ |
        ⟨hcurrent, written, _, hwrite, ⟨middle, front, back, hfront, hback, rfl⟩, rfl⟩)
      · exact ⟨middle, front, back, Or.inl ⟨hcurrent, hfront⟩, hback, rfl⟩
      · exact ⟨middle, o.path :: front, back,
          Or.inr ⟨hcurrent, written, front, hwrite, hfront, rfl⟩, hback, rfl⟩
    · rintro ⟨middle, _, back, ⟨hcurrent, hfront⟩ | ⟨hcurrent, written, front, hwrite, hfront, rfl⟩,
        hback, rfl⟩
      · exact Or.inl ⟨hcurrent, middle, _, back, hfront, hback, rfl⟩
      · exact Or.inr ⟨hcurrent, written, front ++ back, hwrite,
          ⟨middle, front, back, hfront, hback, rfl⟩, rfl⟩

end Output

/-! ### Lock files -/

namespace LockFile

variable {root : Path} {d d' : Disk} {p : Path} {lock : LockFile}

theorem pairwise_dropRepeated {names : List String} (h : names.Pairwise (· ≤ ·)) :
    (dropRepeated names).Pairwise (· < ·) := by
  fun_induction dropRepeated names with
  | case1 a b rest he ih => exact ih h.tail
  | case2 a b rest hne ih =>
    obtain ⟨ha, hrest⟩ := List.pairwise_cons.mp h
    refine List.pairwise_cons.mpr ⟨fun name hname => ?_, ih hrest⟩
    rw [mem_dropRepeated] at hname
    have hab : a < b := lt_of_le_of_ne (ha b List.mem_cons_self) fun he => hne (beq_iff_eq.mpr he)
    rcases List.mem_cons.mp hname with rfl | hname
    · exact hab
    · exact lt_of_lt_of_le hab ((List.pairwise_cons.mp hrest).1 name hname)
  | case3 names hshort =>
    rcases names with _ | ⟨a, _ | ⟨b, rest⟩⟩
    · exact .nil
    · exact List.pairwise_singleton _ a
    · exact absurd rfl (hshort a b rest)

/-- **The entries of a lock file stand in strict order**, so none is there twice. -/
theorem pairwise_files (root : Path) (generated : List Path) :
    (ofPaths root generated).files.Pairwise (· < ·) := by
  have hle : ∀ a b : String, (compare a b).isLE = true ↔ a ≤ b := fun a b =>
    Ordering.isLE_iff_ne_gt.trans compare_le_iff_le
  refine pairwise_dropRepeated
    ((List.pairwise_mergeSort (fun a b c hab hbc => ?_) (fun a b => ?_) _).imp (hle _ _).mp)
  · exact (hle a c).mpr (le_trans ((hle a b).mp hab) ((hle b c).mp hbc))
  · rw [Bool.or_eq_true, hle, hle]
    exact le_total a b

theorem isAbsolute_of_resolveEntry (hroot : root.isAbsolute = true) {entry : String}
    (h : root.resolveEntry entry = some p) : p.isAbsolute = true := by
  unfold Path.resolveEntry at h
  rw [Option.ite_none_left_eq_some] at h
  rw [← Option.some.inj h.2]
  exact Path.isAbsolute_join hroot _

theorem write_eq_ok : lock.write d p = .ok d' ↔ d.write p (.text lock.text) = .ok d' := by
  unfold write
  cases d.write p (.text lock.text) <;> simp

theorem read_eq_some :
    read d p = .ok (some lock) ↔ ∃ text, d.read p = .ok text ∧ parse text = .ok lock := by
  unfold read
  rcases d.read p with e | text
  · cases e <;> simp
  · cases hparse : parse text <;> simp [hparse]

/-- Pruning puts nothing but what it deletes at stake. -/
theorem spares_pruneEntries (hroot : root.isAbsolute = true) (entries : List String) :
    ∀ p : Pruning, ∃ more, (pruneEntries root p entries).1.deleted = p.deleted ++ more ∧
      Disk.Spares more p.disk (pruneEntries root p entries).1.disk := by
  induction entries with
  | nil => exact fun p => ⟨[], (List.append_nil _).symm, .refl _ _⟩
  | cons entry rest ih =>
    intro p
    obtain ⟨first, hfirst, hspares⟩ : ∃ first,
        (pruneEntry root p entry).1.deleted = p.deleted ++ first ∧
        Disk.Spares first p.disk (pruneEntry root p entry).1.disk := by
      rcases pruneEntry_cases root p entry with he | ⟨path, disk, hpath, hdelete, he⟩
      · rw [he]
        exact ⟨[], (List.append_nil _).symm, .refl _ _⟩
      · rw [he]
        exact ⟨[path], rfl,
          .delete List.mem_cons_self (isAbsolute_of_resolveEntry hroot hpath) hdelete⟩
    unfold pruneEntries
    rcases hone : pruneEntry root p entry with ⟨p', _ | _⟩
    · rw [hone] at hfirst hspares
      exact ⟨first, hfirst, hspares⟩
    · rw [hone] at hfirst hspares
      obtain ⟨more, hmore, hrest⟩ := ih p'
      refine ⟨first ++ more, by rw [hmore, hfirst, List.append_assoc], ?_⟩
      exact (hspares.mono fun q hq => List.mem_append_left _ hq).trans
        (hrest.mono fun q hq => List.mem_append_right _ hq)

theorem prune_self (lock : LockFile) (root : Path) (d : Disk) :
    lock.prune lock root d = ({ disk := d }, .ok ()) := by
  have hnone : lock.staleFiles lock = [] := by simp [staleFiles]
  unfold prune
  rw [hnone]
  rfl

theorem pruned_prune (lock previous : LockFile) (root : Path) (d : Disk) :
    Pruned root (lock.staleFiles previous) d (lock.prune previous root d).1 :=
  (Pruned.start root _ d).pruneEntries _ fun _ he => he

theorem spares_prune (hroot : root.isAbsolute = true) (lock previous : LockFile) (d : Disk) :
    Disk.Spares (lock.prune previous root d).1.deleted d (lock.prune previous root d).1.disk := by
  obtain ⟨more, hmore, hspares⟩ :=
    spares_pruneEntries hroot (lock.staleFiles previous) { disk := d }
  rw [show (lock.prune previous root d).1.deleted = more from hmore]
  exact hspares

end LockFile

end EntityModel
