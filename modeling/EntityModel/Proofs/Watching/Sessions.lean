import EntityModel.Proofs.Store.Diagnosed
import EntityModel.Proofs.Watching.Dependents
import EntityModel.Proofs.Watching.FileLinks
import EntityModel.Proofs.Watching.Turns

/-!
# Watch sessions lose no update

A watch session is a row of turns: files are written or deleted, broken or mended, the store is
linked again, and once the model is clean the watchers are told what has changed since they were
last told.  A `Backlog` keeps account, apart from the host, of what the watchers have to be told of:
the files written and deleted since then, and what depended on them in the links made since then.

What keeps the host from forgetting any of it is that every such file is `Exposed`: it is pending,
it is not there, or it names an exposed file.  Whatever happens to a file, what was exposed stays so
until the watchers are told, and in a clean model an exposed file that is there depends on a pending
one.  Hence the watchers are told of all that is owed (`Host.no_update_lost`).
-/

namespace EntityModel

open Relation (ReflTransGen)
open Linking

namespace Store

/-- In the draft of the one file stands the name of the other. -/
def Needs (s : Store) (a c : FileId) : Prop :=
  ∃ f, s.drafts.get? a = some f ∧ ∃ name ∈ f.fileNames, s.registry.name? c = some name

variable {s : Store} {a c : FileId}

theorem Drafted.get?_of_mem (h : s.Drafted) {f : ModelFile} (hf : f ∈ s.draftModel.files) :
    s.drafts.get? f.id = some f :=
  FileTable.get?_of_mem h.sorted (h.mem_files hf)

theorem Reachable.needs_of_dependsOn (h : s.Reachable) (hdep : s.link.1.model.DependsOn a c) :
    s.Needs a c := by
  have hm := h.drafted.asLoaded
  rw [link_model] at hdep
  obtain ⟨f, hf, rfl, hdep⟩ := hdep
  obtain ⟨d, hd, hid, hnames, -⟩ := exists_draft_of_file hm hf
  obtain ⟨g, hg, rfl, hname⟩ := exists_named_of_dependsOn hm hf hdep
  exact ⟨d, hid ▸ h.drafted.get?_of_mem hd, g.name, hnames ▸ hname,
    (h.drafted.drafts g.id g (h.drafted.mem_files hg)).2.1⟩

/-- In a clean model a file depends on whatever its draft names. -/
theorem Reachable.dependsOn_of_needs (h : s.Reachable) (hnone : s.link.2.errors = 0)
    (hneeds : s.Needs a c) :
    s.link.1.model.DependsOn a c := by
  have hm := h.drafted.asLoaded
  obtain ⟨d, hget, name, hname, hc⟩ := hneeds
  have hmem := FileTable.mem_of_get? hget
  have hd : d ∈ s.draftModel.files := List.mem_map_of_mem (f := Prod.snd) hmem
  obtain ⟨f, hf, hid⟩ := exists_file_of_draft s.naming hm hd
  obtain ⟨e, he, hide, hnames, -⟩ := exists_draft_of_file hm hf
  obtain rfl : e = d := List.inj_on_of_nodup_map h.drafted.numbered.files he hd (hide.trans hid)
  obtain ⟨g, hg, rfl, hdep⟩ :=
    exists_dependsOn_of_named hm (no_errors_of_link hnone) hf (hnames ▸ hname)
  have hreg := (h.drafted.drafts g.id g (h.drafted.mem_files hg)).2.1
  obtain rfl := FileRegistry.name?_inj h.drafted.names hreg hc
  rw [link_model]
  exact ⟨f, hf, hid.trans (h.drafted.drafts a e hmem).1, hdep⟩

theorem Reachable.loaded_of_dependsOn (h : s.Reachable) (hdep : s.link.1.model.DependsOn a c) :
    c ∈ s.drafts.keys := by
  rw [link_model] at hdep
  obtain ⟨f, hf, -, hdep⟩ := hdep
  obtain ⟨g, hg, rfl, -⟩ := exists_named_of_dependsOn h.drafted.asLoaded hf hdep
  exact List.mem_map_of_mem (h.drafted.mem_files hg)

theorem Reachable.nodup_files (h : s.Reachable) : (s.link.1.model.files.map (·.id)).Nodup :=
  h.numbered_link.files

theorem Reachable.isSome_file? (h : s.Reachable) (ha : a ∈ s.drafts.keys) :
    (s.link.1.model.file? a).isSome = true := by
  obtain ⟨⟨id, d⟩, hmem, rfl⟩ := List.mem_map.mp ha
  have hd : d ∈ s.draftModel.files := List.mem_map_of_mem (f := Prod.snd) hmem
  obtain ⟨f, hf, hid⟩ := exists_file_of_draft s.naming h.drafted.asLoaded hd
  rw [← link_model] at hf
  rw [show id = f.id from (hid.trans (h.drafted.drafts id d hmem).1).symm,
    Model.file?_of_mem h.nodup_files hf]
  rfl

theorem Reachable.loaded_of_file? (h : s.Reachable) (ha : (s.link.1.model.file? a).isSome = true) :
    a ∈ s.drafts.keys := by
  obtain ⟨f, hf⟩ := Option.isSome_iff_exists.mp ha
  obtain ⟨hmem, rfl⟩ := Model.mem_of_file? hf
  rw [link_model] at hmem
  obtain ⟨d, hd, hid, -⟩ := exists_draft_of_file h.drafted.asLoaded hmem
  rw [← hid]
  exact List.mem_map_of_mem (h.drafted.mem_files hd)

end Store

/-- A file that is pending or not there, or that names an exposed file. -/
inductive Exposed (pending : List FileId) (s : Store) : FileId → Prop
  | pending {a : FileId} : a ∈ pending → Exposed pending s a
  | missing {a : FileId} : s.drafts.get? a = none → Exposed pending s a
  | needs {a c : FileId} : s.Needs a c → Exposed pending s c → Exposed pending s a

variable {pending pending' : List FileId} {s s' : Store} {a : FileId}

/-- Files may come and go, as long as those that come in place of others are pending. -/
structure Renewed (pending : List FileId) (s : Store) (pending' : List FileId)
    (s' : Store) : Prop where
  names : ∀ id name, s.registry.name? id = some name → s'.registry.name? id = some name
  drafts : ∀ a, s'.drafts.get? a = s.drafts.get? a ∨ s'.drafts.get? a = none ∨ a ∈ pending'
  pending : ∀ a ∈ pending, a ∈ pending' ∨ s'.drafts.get? a = none

/-- **What is exposed stays exposed.** -/
theorem Exposed.renew (hr : Renewed pending s pending' s') (h : Exposed pending s a) :
    Exposed pending' s' a := by
  induction h with
  | pending ha =>
    rcases hr.pending _ ha with ha | ha
    · exact .pending ha
    · exact .missing ha
  | @missing a ha =>
    rcases hr.drafts a with hsame | hgone | hpending
    · exact .missing (hsame.trans ha)
    · exact .missing hgone
    · exact .pending hpending
  | @needs a c hneeds _ ih =>
    rcases hr.drafts a with hsame | hgone | hpending
    · obtain ⟨f, hf, name, hname, hc⟩ := hneeds
      exact .needs ⟨f, hsame.trans hf, name, hname, hr.names c name hc⟩ ih
    · exact .missing hgone
    · exact .pending hpending

theorem Renewed.needs {c : FileId} (hr : Renewed pending s pending' s') (h : s.Needs a c) :
    Exposed pending' s' a ∨ s'.Needs a c := by
  obtain ⟨f, hf, name, hname, hc⟩ := h
  rcases hr.drafts a with hsame | hgone | hpending
  · exact .inr ⟨f, hsame.trans hf, name, hname, hr.names c name hc⟩
  · exact .inl (.missing hgone)
  · exact .inl (.pending hpending)

/-- In a clean model an exposed file that is there depends on a pending one. -/
theorem Exposed.reaches (hs : s.Reachable) (hnone : s.link.2.errors = 0) (h : Exposed pending s a)
    (ha : a ∈ s.drafts.keys) : ∃ p ∈ pending, ReflTransGen s.link.1.model.DependsOn a p := by
  induction h with
  | pending hp => exact ⟨_, hp, .refl⟩
  | missing hgone => exact absurd ha (FileTable.get?_eq_none.mp hgone)
  | @needs a c hneeds _ ih =>
    have hdep := hs.dependsOn_of_needs hnone hneeds
    obtain ⟨p, hp, hpath⟩ := ih (hs.loaded_of_dependsOn hdep)
    exact ⟨p, hp, .head hdep hpath⟩

/-! ### What the watchers have to be told of -/

/-- What has happened since the watchers were last told. -/
structure Backlog where
  /-- The models linked since then, and the one that they were told of. -/
  links : List Model := []
  /-- The files that were written, with whatever content. -/
  written : List FileId := []
  /-- The files that were deleted. -/
  removed : List FileId := []

/-- A file that the watchers have to be told of when a model is linked: it was written, it depended
on a file that was deleted, or it depends on such a file now. -/
inductive Backlog.Owed (b : Backlog) (m : Model) : FileId → Prop
  | written {a : FileId} : a ∈ b.written → b.Owed m a
  | orphaned {a r : FileId} {l : Model} : l ∈ b.links → r ∈ b.removed →
    ReflTransGen l.DependsOn a r →
      b.Owed m a
  | dependent {a c : FileId} : b.Owed m c → m.DependsOn a c → b.Owed m a

/-- All that is owed is exposed: for the links made, what depended on a file still names it. -/
structure Backlog.Covered (b : Backlog) (pending : List FileId) (s : Store) : Prop where
  written : ∀ a ∈ b.written, Exposed pending s a
  removed : ∀ a ∈ b.removed, Exposed pending s a
  links : ∀ m ∈ b.links, ∀ a c, m.DependsOn a c → Exposed pending s a ∨ s.Needs a c

variable {b : Backlog}

theorem Backlog.Covered.renew (h : b.Covered pending s) (hr : Renewed pending s pending' s') :
    b.Covered pending' s' where
  written a ha := (h.written a ha).renew hr
  removed a ha := (h.removed a ha).renew hr
  links m hm a c hdep := by
    rcases h.links m hm a c hdep with ha | ha
    · exact .inl (ha.renew hr)
    · exact hr.needs ha

/-- What depended on a deleted file is exposed. -/
theorem Backlog.Covered.orphaned (h : b.Covered pending s) {m : Model}
    (hm : m ∈ b.links) {r : FileId}
    (hr : r ∈ b.removed) (hpath : ReflTransGen m.DependsOn a r) : Exposed pending s a := by
  induction hpath using ReflTransGen.head_induction_on with
  | refl => exact h.removed r hr
  | head hdep _ ih =>
    rcases h.links m hm _ _ hdep with ha | ha
    · exact ha
    · exact .needs ha ih

/-- **In a clean model whatever is owed and there depends on a pending file.** -/
theorem Backlog.Owed.reaches (h : b.Owed s.link.1.model a) (hb : b.Covered pending s)
    (hs : s.Reachable) (hnone : s.link.2.errors = 0) (ha : a ∈ s.drafts.keys) :
    ∃ p ∈ pending, ReflTransGen s.link.1.model.DependsOn a p := by
  induction h with
  | written hw => exact (hb.written _ hw).reaches hs hnone ha
  | orphaned hl hr hpath => exact (hb.orphaned hl hr hpath).reaches hs hnone ha
  | @dependent a c _ hdep ih =>
    obtain ⟨p, hp, hpath⟩ := ih (hs.loaded_of_dependsOn hdep)
    exact ⟨p, hp, .head hdep hpath⟩

/-! ### Turns -/

variable {σ : Type}

/-- The watchers are told of the files in order, up to the first that fails. -/
inductive Told (store : Store) (files : List FileId) : List (Watcher σ × σ) → Disk →
    List (Watcher σ × σ) × Disk × Except GeneratorError Unit → Prop
  | all {disk : Disk} : Told store files [] disk ([], disk, .ok ())
  | fails {w : Watcher σ} {kept kept' : σ} {rest : List (Watcher σ × σ)} {disk disk' : Disk}
      {e : GeneratorError} : w.onFilesChanged store files kept disk = (kept', disk', .error e) →
      Told store files ((w, kept) :: rest) disk ((w, kept') :: rest, disk', .error e)
  | next {w : Watcher σ} {kept kept' : σ} {rest rest' : List (Watcher σ × σ)}
    {disk disk' disk'' : Disk}
      {result : Except GeneratorError Unit} :
      w.onFilesChanged store files kept disk = (kept', disk', .ok ()) →
      Told store files rest disk' (rest', disk'', result) →
      Told store files ((w, kept) :: rest) disk ((w, kept') :: rest', disk'', result)

theorem told_tellAll (store : Store) (files : List FileId) :
    ∀ (watchers : List (Watcher σ × σ)) (disk : Disk),
    Told store files watchers disk (Host.tellAll store files watchers disk)
  | [], _ => .all
  | (w, kept) :: rest, disk => by
    unfold Host.tellAll
    rcases htold : w.onFilesChanged store files kept disk with ⟨kept', disk', e | _⟩
    · exact .fails htold
    · exact .next htold (told_tellAll store files rest disk')

/-- A host that is about to link again. -/
structure Turn (σ : Type) where
  ready : Host σ
  /-- The files that become pending. -/
  changed : List FileId
  backlog : Backlog

namespace Turn

variable (t : Turn σ)

/-- The host linked again, before any watcher is told. -/
def linked : Host σ := t.ready.relinked t.changed

/-- The link has no error, and something is pending. -/
def isClean : Bool := t.ready.store.link.2.isOk && !t.linked.pending.isEmpty

/-- Once all watchers have been told, the account starts anew from the model just linked. -/
def after : Backlog :=
  if t.isClean && (t.ready.relink t.changed).2.isOk then { links := [t.linked.store.model] }
  else { t.backlog with links := t.linked.store.model :: t.backlog.links }

end Turn

namespace Host

/-- The turn that a command of a watch session comes to, if the store is linked at all: what was
loaded or deleted, and the backlog with it. -/
def turn? (h : Host σ) (b : Backlog) : Command → Option (Turn σ)
  | .edit _ | .run => none
  | .startWatch =>
    match Workspace.loadAll .collect h.store h.disk with
    | (_, .error _) => none
    | (store, .ok _) => some
        { ready := { h with mode := .collect, store }
          changed := store.loadedIds
          backlog := { b with written := store.drafts.keys ++ b.written } }
  | .changed path =>
    match Workspace.fileName? h.store.settings path with
    | none => none
    | some name =>
      match Workspace.loadOne h.mode h.store h.disk path with
      | (_, .error _) => none
      | (store, .ok ()) =>
        let (store, id) := store.intern name
        some
          { ready := { h with store }
            changed := [id]
            backlog := { b with written := id :: b.written } }
  | .removed path =>
    match (Workspace.fileName? h.store.settings path).bind h.store.registry.get? with
    | none => none
    | some id => some
        { ready := { h with pending := h.pending.filter (· != id), store := h.store.removeFile id }
          changed := (h.store.model.withDependents id).filter (· != id)
          backlog := { b with removed := id :: b.removed } }

def follow (h : Host σ) (b : Backlog) : List Command → Host σ × Backlog
  | [] => (h, b)
  | c :: rest => follow (h.obey c).1 (((h.turn? b c).map Turn.after).getD b) rest

variable {h : Host σ} {t : Turn σ} {c : Command}

/-- All that can come to a turn. -/
theorem turn?_cases (ht : h.turn? b c = some t) :
    (c = .startWatch ∧ ∃ store n, Workspace.loadAll .collect h.store h.disk = (store, .ok n) ∧
      t = ⟨{ h with mode := .collect, store }, store.loadedIds,
        { b with written := store.drafts.keys ++ b.written }⟩) ∨
    (∃ path name store, c = .changed path ∧ Workspace.fileName? h.store.settings path = some name ∧
      Workspace.loadOne h.mode h.store h.disk path = (store, .ok ()) ∧
      t = ⟨{ h with store := (store.intern name).1 }, [(store.intern name).2],
        { b with written := (store.intern name).2 :: b.written }⟩) ∨
    (∃ path id, c = .removed path ∧
      (Workspace.fileName? h.store.settings path).bind h.store.registry.get? = some id ∧
      t = ⟨{ h with pending := h.pending.filter (· != id), store := h.store.removeFile id },
        (h.store.model.withDependents id).filter (· != id),
        { b with removed := id :: b.removed }⟩) := by
  cases c with
  | edit _ | run => cases ht
  | startWatch =>
    simp only [turn?] at ht
    rcases hload : Workspace.loadAll .collect h.store h.disk with ⟨store, _ | n⟩
    · rw [hload] at ht
      cases ht
    · rw [hload] at ht
      exact .inl ⟨rfl, store, n, rfl, (Option.some.inj ht).symm⟩
  | changed path =>
    simp only [turn?] at ht
    cases hname : Workspace.fileName? h.store.settings path with
    | none =>
      rw [hname] at ht
      cases ht
    | some name =>
      rcases hload : Workspace.loadOne h.mode h.store h.disk path with ⟨store, _ | _⟩
      · rw [hname, hload] at ht
        cases ht
      · rw [hname, hload] at ht
        exact .inr (.inl ⟨path, name, store, rfl, hname, hload, (Option.some.inj ht).symm⟩)
  | removed path =>
    simp only [turn?] at ht
    cases hid : (Workspace.fileName? h.store.settings path).bind h.store.registry.get? with
    | none =>
      rw [hid] at ht
      cases ht
    | some id =>
      rw [hid] at ht
      exact .inr (.inr ⟨path, id, rfl, hid, (Option.some.inj ht).symm⟩)

/-- A command that comes to a turn is that turn. -/
theorem obey_of_turn? (ht : h.turn? b c = some t) : h.obey c = t.ready.relink t.changed := by
  rcases turn?_cases ht with ⟨rfl, store, n, hload, rfl⟩ |
    ⟨path, name, store, rfl, hname, hload, rfl⟩ | ⟨path, id, rfl, hid, rfl⟩
  · show h.startWatch = _
    rw [startWatch_eq, hload]
  · show h.fileChanged path = _
    rw [fileChanged_eq h path hname, hload]
  · show h.fileRemoved path = _
    unfold fileRemoved
    rw [hid]

theorem mem_idSet {ids : List FileId} {a : FileId} : a ∈ idSet ids ↔ a ∈ ids := by
  rw [idSet, mem_firstOccurrences, FileId.sort, List.mem_mergeSort]

theorem mem_pending_relinked {changed : List FileId} {a : FileId} :
    a ∈ (h.relinked changed).pending ↔ a ∈ h.pending ∨ a ∈ changed :=
  mem_idSet.trans List.mem_append

/-! ### No turn forgets anything -/

/-- What a watch session keeps between its turns. -/
structure Following (h : Host σ) (b : Backlog) : Prop where
  reachable : h.store.Reachable
  mode : h.mode = .collect
  covered : b.Covered h.pending h.store

/-- A turn loads or deletes something and leaves all that is owed exposed. -/
theorem following_of_turn? (hs : h.store.Reachable) (hb : c = .startWatch ∨ h.Following b)
    (ht : h.turn? b c = some t) :
    t.ready.store.Reachable ∧ t.ready.mode = .collect ∧
    t.backlog.Covered t.linked.pending t.ready.store := by
  rcases turn?_cases ht with ⟨rfl, store, n, hload, rfl⟩ |
    ⟨path, name, store, rfl, hname, hload, rfl⟩ | ⟨path, id, rfl, hid, rfl⟩
  · have hexposed : ∀ a,
        Exposed (relinked { h with mode := .collect, store } store.loadedIds).pending store a := by
      intro a
      cases hget : store.drafts.get? a with
      | none => exact .missing hget
      | some f =>
        refine .pending (mem_pending_relinked.mpr (.inr ?_))
        exact Store.mem_loadedIds.mpr (Or.inl (List.mem_map_of_mem (FileTable.mem_of_get? hget)))
    have hloaded := hs.loadAll .collect h.disk
    rw [hload] at hloaded
    exact ⟨hloaded, rfl, fun a _ => hexposed a, fun a _ => hexposed a,
      fun _ _ a _ _ => .inl (hexposed a)⟩
  · obtain ⟨-, hmode, hcovered⟩ := hb.resolve_left (by simp)
    have hloaded := hs.loadOne h.mode h.disk path
    obtain ⟨hnames, hdrafts⟩ := Store.loadOne_spec hs h.mode h.disk path hname
    rw [hload] at hloaded hnames hdrafts
    have hrenewed : Renewed h.pending h.store
        (relinked { h with store := (store.intern name).1 } [(store.intern name).2]).pending
        (store.intern name).1 := by
      refine ⟨fun a n hn => FileRegistry.name?_intern_of_name? (hnames a n hn) name, fun a => ?_,
        fun a ha => .inl (mem_pending_relinked.mpr (.inl ha))⟩
      by_cases ha : a = (store.intern name).2
      · exact .inr (.inr (mem_pending_relinked.mpr (.inr (ha ▸ List.mem_cons_self))))
      · exact .inl (hdrafts a ha)
    have hkept := hcovered.renew hrenewed
    refine ⟨hloaded.intern name, hmode, fun a ha => ?_, hkept.removed, hkept.links⟩
    rcases List.mem_cons.mp ha with rfl | ha
    · exact .pending (mem_pending_relinked.mpr (.inr List.mem_cons_self))
    · exact hkept.written a ha
  · obtain ⟨-, hmode, hcovered⟩ := hb.resolve_left (by simp)
    have hgone : (h.store.removeFile id).drafts.get? id = none :=
      (FileTable.get?_erase h.store.drafts id id).trans (if_pos rfl)
    have hrenewed : Renewed h.pending h.store
        (relinked { h with pending := h.pending.filter (· != id), store := h.store.removeFile id }
          ((h.store.model.withDependents id).filter (· != id))).pending
            (h.store.removeFile id) := by
      refine ⟨fun _ _ hn => hn, fun a => ?_, fun a ha => ?_⟩
      · by_cases ha : a = id
        · exact .inr (.inl (ha ▸ hgone))
        · exact .inl ((FileTable.get?_erase h.store.drafts id a).trans (if_neg ha))
      · by_cases hid : a = id
        · exact .inr (hid ▸ hgone)
        · exact .inl (mem_pending_relinked.mpr
            (.inl (List.mem_filter.mpr ⟨ha, by simpa using hid⟩)))
    have hkept := hcovered.renew hrenewed
    refine ⟨hs.remove id, hmode, hkept.written, fun a ha => ?_, hkept.links⟩
    rcases List.mem_cons.mp ha with rfl | ha
    · exact .missing hgone
    · exact hkept.removed a ha

theorem store_linked (t : Turn σ) : t.linked.store = t.ready.store.link.1 := rfl

theorem mode_linked (t : Turn σ) : t.linked.mode = t.ready.mode := by
  rw [Turn.linked, relinked, publishErrors]

theorem renewed_link (s : Store) (pending : List FileId) : Renewed pending s pending s.link.1 := by
  rw [Store.link_eq]
  exact ⟨fun _ _ h => h, fun _ => .inl rfl, fun _ h => .inl h⟩

/-- In a clean turn the watchers are told, and nothing is pending once all of them have done their
part. -/
theorem relink_of_clean (hclean : t.isClean = true) :
    ∃ outcome, Told t.linked.store t.linked.affected t.linked.watchers t.linked.disk outcome ∧
      t.ready.relink t.changed = ({ t.linked with
        watchers := outcome.1, disk := outcome.2.1,
        pending := if outcome.2.2.isOk then [] else t.linked.pending },
        outcome.2.2.mapError .generator) := by
  refine ⟨_, told_tellAll _ _ _ _, ?_⟩
  have hgo : ¬ (!t.ready.store.link.2.isOk || (t.ready.relinked t.changed).pending.isEmpty)
      = true := by
    unfold Turn.isClean Turn.linked at hclean
    simpa using hclean
  rw [relink_eq, if_neg hgo]
  unfold tell Turn.linked
  generalize tellAll _ _ _ _ = outcome
  obtain ⟨watchers, disk, _ | _⟩ := outcome <;> rfl

theorem relink_of_not_clean (hclean : t.isClean = false) :
    t.ready.relink t.changed = (t.linked, .ok ()) := by
  have hstay : (!t.ready.store.link.2.isOk || (t.ready.relinked t.changed).pending.isEmpty)
      = true := by
    unfold Turn.isClean Turn.linked at hclean
    cases hok : t.ready.store.link.2.isOk <;> simp_all
  rw [relink_eq, if_pos hstay]
  rfl

/-- The link of a turn is accounted for, and the account is settled only by telling all watchers. -/
theorem following_after (hs : t.ready.store.Reachable) (hmode : t.ready.mode = .collect)
    (hb : t.backlog.Covered t.linked.pending t.ready.store) :
    (t.ready.relink t.changed).1.Following t.after := by
  have hreach : t.linked.store.Reachable := store_linked t ▸ hs.link
  rw [← mode_linked] at hmode
  have hlink : ∀ a c, t.linked.store.model.DependsOn a c → t.linked.store.Needs a c := by
    intro a c hdep
    rw [store_linked] at hdep ⊢
    obtain ⟨f, hf, name, hname, hc⟩ := hs.needs_of_dependsOn hdep
    rw [Store.link_eq]
    exact ⟨f, hf, name, hname, hc⟩
  have hkept := hb.renew (renewed_link t.ready.store t.linked.pending)
  rw [← store_linked] at hkept
  have hgrown : ({ t.backlog with links := t.linked.store.model :: t.backlog.links } :
    Backlog).Covered
      t.linked.pending t.linked.store := by
    refine ⟨hkept.written, hkept.removed, fun m hm a c hdep => ?_⟩
    rcases List.mem_cons.mp hm with rfl | hm
    · exact .inr (hlink a c hdep)
    · exact hkept.links m hm a c hdep
  cases hclean : t.isClean with
  | false =>
    have hafter : t.after
        = { t.backlog with links := t.linked.store.model :: t.backlog.links } := by
      rw [Turn.after, hclean, Bool.false_and, if_neg Bool.false_ne_true]
    rw [relink_of_not_clean hclean, hafter]
    exact ⟨hreach, hmode, hgrown⟩
  | true =>
    obtain ⟨⟨watchers, disk, result⟩, -, hrelink⟩ := relink_of_clean hclean
    have hafter : t.after = if (result.mapError HostError.generator).isOk
        then { links := [t.linked.store.model] }
        else { t.backlog with links := t.linked.store.model :: t.backlog.links } := by
      rw [Turn.after, hclean, Bool.true_and, hrelink]
    rw [hafter, hrelink]
    cases result with
    | error e => exact ⟨hreach, hmode, hgrown⟩
    | ok _ =>
      refine ⟨hreach, hmode, fun _ h => absurd h List.not_mem_nil,
        fun _ h => absurd h List.not_mem_nil, fun m hm a c hdep => ?_⟩
      obtain rfl := List.mem_singleton.mp hm
      exact .inr (hlink a c hdep)

theorem obey_of_no_turn (hb : c = .startWatch ∨ h.mode = .collect) (hrun : c ≠ .run)
    (ht : h.turn? b c = none) : ∃ disk, (h.obey c).1 = { h with disk, mode := .collect } := by
  cases c with
  | run => exact absurd rfl hrun
  | edit disk =>
    refine ⟨disk, ?_⟩
    rw [← hb.resolve_left (by simp)]
    rfl
  | startWatch =>
    refine ⟨h.disk, ?_⟩
    show h.startWatch.1 = _
    simp only [turn?] at ht
    rcases hload : Workspace.loadAll .collect h.store h.disk with ⟨store, e | n⟩
    · rw [startWatch_eq, hload, Store.loadAll_collect_error hload]
    · rw [hload] at ht
      cases ht
  | changed path =>
    refine ⟨h.disk, ?_⟩
    show (h.fileChanged path).1 = _
    simp only [turn?] at ht
    rw [← hb.resolve_left (by simp)]
    cases hname : Workspace.fileName? h.store.settings path with
    | none =>
      unfold fileChanged
      rw [hname]
    | some name =>
      have hok := Store.loadOne_collect_ok h.store h.disk path
      rw [hname, hb.resolve_left (by simp)] at ht
      generalize Workspace.loadOne .collect h.store h.disk path = loaded at ht hok
      obtain ⟨store, _ | _⟩ := loaded
      · cases hok
      · cases ht
  | removed path =>
    refine ⟨h.disk, ?_⟩
    show (h.fileRemoved path).1 = _
    simp only [turn?] at ht
    rw [← hb.resolve_left (by simp)]
    cases hid : (Workspace.fileName? h.store.settings path).bind h.store.registry.get? with
    | none =>
      unfold fileRemoved
      rw [hid]
    | some id =>
      rw [hid] at ht
      cases ht

/-- The host at the start of a session, or in the middle of it. -/
def Opening (h : Host σ) (b : Backlog) (c : Command) : Prop :=
  h.store.Reachable ∧ ((c = .startWatch ∧ b = {}) ∨ h.Following b)

theorem Opening.obey (ho : h.Opening b c) (hrun : c ≠ .run) :
    (h.obey c).1.Following (((h.turn? b c).map Turn.after).getD b) := by
  obtain ⟨hs, hb⟩ := ho
  cases ht : h.turn? b c with
  | some t =>
    obtain ⟨hready, hmode, hcovered⟩ := following_of_turn? hs (hb.imp_left And.left) ht
    rw [obey_of_turn? ht]
    exact following_after hready hmode hcovered
  | none =>
    obtain ⟨disk, hobey⟩ := obey_of_no_turn (hb.imp And.left Following.mode) hrun ht
    rw [hobey]
    refine ⟨hs, rfl, ?_⟩
    rcases hb with ⟨-, rfl⟩ | hb
    · exact ⟨fun _ h => absurd h List.not_mem_nil, fun _ h => absurd h List.not_mem_nil,
        fun _ h => absurd h List.not_mem_nil⟩
    · exact hb.covered

theorem Following.follow : ∀ (commands : List Command) {h : Host σ} {b : Backlog}, h.Following b →
    (∀ x ∈ commands, x ≠ .run) → (h.follow b commands).1.Following (h.follow b commands).2
  | [], _, _, hb, _ => hb
  | c :: rest, h, b, hb, hrun => by
    have hnext := Opening.obey (c := c) ⟨hb.reachable, .inr hb⟩ (hrun c List.mem_cons_self)
    exact hnext.follow rest fun x hx => hrun x (List.mem_cons_of_mem _ hx)

theorem opening_follow (hs : h.store.Reachable) {before : List Command}
    (hfirst : (before ++ [c]).head? = some .startWatch) (hrun : ∀ x ∈ before ++ [c], x ≠ .run) :
    (h.follow {} before).1.Opening (h.follow {} before).2 c := by
  cases before with
  | nil => exact ⟨hs, .inl ⟨Option.some.inj hfirst, rfl⟩⟩
  | cons x rest =>
    obtain rfl : x = .startWatch := Option.some.inj hfirst
    have hnext := Opening.obey (h := h) ⟨hs, .inl ⟨rfl, rfl⟩⟩ (hrun _ List.mem_cons_self)
    have hlater := hnext.follow rest fun x hx =>
      hrun x (List.mem_cons_of_mem _ (List.mem_append_left _ hx))
    exact ⟨hlater.reachable, .inr hlater⟩

/-- The files that the watchers are told of are all that is owed to them. -/
theorem mem_affected (hs : t.ready.store.Reachable)
    (hb : t.backlog.Covered t.linked.pending t.ready.store)
    (hclean : t.isClean = true) {a : FileId} (ha : a ∈ t.ready.store.drafts.keys)
    (howed : t.backlog.Owed t.linked.store.model a) : a ∈ t.linked.affected := by
  have hnone : t.ready.store.link.2.errors = 0 := by
    have := (Bool.and_eq_true_iff.mp hclean).1
    simpa [LinkReport.isOk] using this
  rw [store_linked] at howed
  obtain ⟨p, hp, hpath⟩ := howed.reaches hb hs hnone ha
  refine mem_idSet.mpr (List.mem_filter.mpr ⟨List.mem_flatMap.mpr ⟨p, hp, ?_⟩, ?_⟩)
  · rw [store_linked]
    exact (Model.mem_withDependents hs.nodup_files).mpr hpath
  · rw [store_linked]
    exact hs.isSome_file? ha

/-- **A watch session loses no update.**  However a session goes on after its start, whatever is
written, deleted, broken or mended, and whichever watchers fail: an event that does not make the
host link again loads nothing and tells nobody; a turn whose link has an error, or after which
nothing is pending, tells nobody; and any other turn tells the watchers in order, up to the first
that fails, of one list of files, which holds every loaded file that was written since all watchers
were last told, every one that in a link made since then depended on a file deleted since then, and
every file that now depends on one of these. -/
theorem no_update_lost (hs : h.store.Reachable) (before : List Command) (c : Command)
    (hfirst : (before ++ [c]).head? = some .startWatch) (hrun : ∀ x ∈ before ++ [c], x ≠ .run) :
    ∀ g b, h.follow {} before = (g, b) →
      (g.turn? b c = none → (g.obey c).1.store = g.store ∧ (g.obey c).1.watchers = g.watchers) ∧
      ∀ t, g.turn? b c = some t →
        (t.isClean = false → g.obey c = (t.linked, .ok ())) ∧
        (t.isClean = true → ∃ files outcome,
          Told t.linked.store files t.linked.watchers t.linked.disk outcome ∧
          (g.obey c).1.watchers = outcome.1 ∧ (g.obey c).1.disk = outcome.2.1 ∧
          (g.obey c).2 = outcome.2.2.mapError .generator ∧
          ∀ a ∈ t.ready.store.drafts.keys, t.backlog.Owed t.linked.store.model a → a ∈ files) := by
  intro g b hfollow
  have hopening := opening_follow hs hfirst hrun
  rw [hfollow] at hopening
  obtain ⟨hreach, hb⟩ := hopening
  refine ⟨fun ht => ?_, fun t ht => ?_⟩
  · obtain ⟨disk, hobey⟩ := obey_of_no_turn (hb.imp And.left Following.mode)
      (hrun c (List.mem_append_right _ List.mem_cons_self)) ht
    rw [hobey]
    exact ⟨rfl, rfl⟩
  · obtain ⟨hready, -, hcovered⟩ := following_of_turn? hreach (hb.imp_left And.left) ht
    rw [obey_of_turn? ht]
    refine ⟨relink_of_not_clean, fun hclean => ?_⟩
    obtain ⟨outcome, htold, hrelink⟩ := relink_of_clean hclean
    rw [hrelink]
    exact ⟨_, outcome, htold, rfl, rfl, rfl,
      fun a ha howed => mem_affected hready hcovered hclean ha howed⟩

/-- A file with a domain. -/
def domainNode (domain : String) : Place × DiskNode :=
  (["D.tmd"], .file (.text ("module: M\n---\ndomain:\n label: d\n name: " ++ domain)))

/-- A class with a property of the domain `D` in the other file. -/
def classNode : Place × DiskNode :=
  (["K.tmd"], .file (.text ("module: M\nuses: [D]\n---\nclass:\n name: K\n comment: c\n"
    ++ " properties:\n - name: X\n   comment: c\n   domain: D")))

/-- The class comes to the domain, which is given another name then, and at last its own name
again. -/
def renamedAndBack : List Command :=
  [.startWatch, .edit ⟨[domainNode "D", classNode]⟩, .changed ⟨"./K.tmd"⟩,
    .edit ⟨[domainNode "E", classNode]⟩, .changed ⟨"./D.tmd"⟩, .edit ⟨[domainNode "D", classNode]⟩]

def mended : Host (List Notice) × Backlog :=
  (new {} ⟨[domainNode "D"]⟩ [(recorder, [])]).follow {} renamedAndBack

/-- When the host is told of the domain again, it tells the watcher of it and of the class that
depends on it, though the class was not written since the watcher was last told. -/
theorem no_update_lost_of_mended :
    ∃ t, mended.1.turn? mended.2 (.changed ⟨"./D.tmd"⟩) = some t ∧ t.isClean = true ∧
      ⟨0⟩ ∈ t.backlog.written ∧ ⟨1⟩ ∉ t.backlog.written ∧
      ∃ files outcome, Told t.linked.store files t.linked.watchers t.linked.disk outcome ∧
        ⟨0⟩ ∈ files ∧ ⟨1⟩ ∈ files := by
  have hturn : (mended.1.turn? mended.2 (.changed ⟨"./D.tmd"⟩)).any (fun t =>
      t.ready.store.link.2.isOk && (t.backlog.written.contains ⟨0⟩ &&
        (!t.backlog.written.contains ⟨1⟩ && (t.changed.contains ⟨0⟩ &&
          ((t.linked.store.model.files.any fun f => f.id == ⟨1⟩ && f.dependsOn ⟨0⟩) &&
            (t.ready.store.drafts.keys.contains ⟨0⟩ &&
              t.ready.store.drafts.keys.contains ⟨1⟩)))))) = true := by
    decide +kernel
  obtain ⟨t, ht, hfacts⟩ := (Option.any_eq_true _ _).mp hturn
  simp only [Bool.and_eq_true, Bool.not_eq_true', List.contains_iff_mem, List.any_eq_true,
    beq_iff_eq] at hfacts
  obtain ⟨hok, hwritten, hnot, hchanged, ⟨f, hf, hid, hdep⟩, hdomain, hclass⟩ := hfacts
  have hunwritten : ⟨1⟩ ∉ t.backlog.written := by
    rw [← List.contains_iff_mem, hnot]
    exact Bool.false_ne_true
  have hclean : t.isClean = true := by
    have hpending : ⟨0⟩ ∈ t.linked.pending := mem_pending_relinked.mpr (.inr hchanged)
    rw [Turn.isClean, hok, List.isEmpty_eq_false_iff.mpr (List.ne_nil_of_mem hpending)]
    rfl
  have hdomainOwed : t.backlog.Owed t.linked.store.model ⟨0⟩ := .written hwritten
  have hclassOwed : t.backlog.Owed t.linked.store.model ⟨1⟩ :=
    .dependent hdomainOwed ⟨f, hf, hid, hdep⟩
  have hnew : (new {} ⟨[domainNode "D"]⟩ [(recorder, [])] : Host (List Notice)).store.Reachable :=
    .new {}
  have hrun : ∀ x ∈ renamedAndBack ++ [.changed ⟨"./D.tmd"⟩], x ≠ .run := by simp [renamedAndBack]
  have hlost := (no_update_lost hnew renamedAndBack (.changed ⟨"./D.tmd"⟩) rfl hrun _ _ rfl).2 t ht
  obtain ⟨files, outcome, htold, -, -, -, hfiles⟩ := hlost.2 hclean
  exact ⟨t, ht, hclean, hwritten, hunwritten, files, outcome, htold, hfiles _ hdomain hdomainOwed,
    hfiles _ hclass hclassOwed⟩

end Host

end EntityModel
