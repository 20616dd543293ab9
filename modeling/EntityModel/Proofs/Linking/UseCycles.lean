import EntityModel.Linking.Uses
import EntityModel.Proofs.Model.Numbering
import Mathlib.Data.List.Chain
import Mathlib.Data.List.Perm.Subperm
import Mathlib.Logic.Relation

/-!
# The search for circles of uses

The search goes depth first from every file, and which circles it reports depends on the order of
the files and of their uses.  Whether it reports any does not: it finds one if and only if the files
use each other in a circle (`useCycles_eq_nil_iff`).  A use that leads back into the path in hand
closes a circle, and this is all that is reported (`isCircle_of_useCycles`).  If there is no such
use, the files are done with in an order in which each comes after those that it uses (`DoneWith`),
and then nothing leads back.
-/

namespace EntityModel.Linking

open Relation

variable {m : Model}

def UsesFile (m : Model) (a b : FileId) : Prop :=
  ∃ f, m.file? a = some f ∧ ∃ use ∈ f.uses, use.target = some b

def UsesAcyclic (m : Model) : Prop := ∀ a, ¬ TransGen (UsesFile m) a a

theorem UsesFile.live {a b : FileId} (h : UsesFile m a b) : m.file? a ≠ none := by
  obtain ⟨f, hf, -⟩ := h
  simp [hf]

/-! ### What the search has found stays -/

theorem cycles_followUse {visit : Search → FileId → Search} {path : List FileId}
    (hvisit : ∀ s id, (visit s id).cycles = [] → s.cycles = []) (s : Search) (use : FileReference)
    (h : (followUse visit path s use).cycles = []) : s.cycles = [] := by
  unfold followUse at h
  split at h
  · exact h
  · split at h
    · exact absurd h (by simp)
    · split at h
      · exact h
      · exact hvisit _ _ h

theorem cycles_foldl {α : Type} {step : Search → α → Search}
    (hstep : ∀ s a, (step s a).cycles = [] → s.cycles = []) (as : List α) (s : Search)
    (h : (as.foldl step s).cycles = []) : s.cycles = [] := by
  induction as generalizing s with
  | nil => exact h
  | cons a as ih => exact hstep s a (ih (step s a) h)

theorem cycles_visitUses (m : Model) (fuel : Nat) :
    ∀ (path : List FileId) (s : Search) (id : FileId),
    (visitUses m fuel path s id).cycles = [] → s.cycles = [] := by
  induction fuel with
  | zero => exact fun _ _ _ h => h
  | succ fuel ih =>
    intro path s id h
    unfold visitUses at h
    split at h
    · exact h
    · exact cycles_foldl (cycles_followUse (ih _)) _ s h

/-! ### Files that are done with -/

/-- Each file of the list comes before those that it uses, as far as there are such files. -/
def DoneWith (m : Model) : List FileId → Prop
  | [] => True
  | id :: rest => (∀ b, UsesFile m id b → m.file? b ≠ none → b ∈ rest) ∧ DoneWith m rest

theorem DoneWith.closed {done : List FileId} (h : DoneWith m done) {a b : FileId} (ha : a ∈ done)
    (hab : UsesFile m a b) (hb : m.file? b ≠ none) : b ∈ done := by
  induction done with
  | nil => exact absurd ha List.not_mem_nil
  | cons id rest ih =>
    rcases List.mem_cons.mp ha with rfl | ha
    · exact List.mem_cons_of_mem _ (h.1 b hab hb)
    · exact List.mem_cons_of_mem _ (ih h.2 ha)

theorem DoneWith.reaches {done : List FileId} (h : DoneWith m done) {a b : FileId} (ha : a ∈ done)
    (hab : ReflTransGen (UsesFile m) a b) (hb : m.file? b ≠ none) : b ∈ done := by
  induction hab using ReflTransGen.head_induction_on with
  | refl => exact ha
  | @head a c hac hcb ih =>
    have hc : m.file? c ≠ none := by
      rcases ReflTransGen.cases_head hcb with rfl | ⟨d, hcd, -⟩
      · exact hb
      · exact hcd.live
    exact ih (h.closed ha hac hc)

/-- **Nothing that is done with lies on a circle.** -/
theorem DoneWith.not_circular {done : List FileId} (h : DoneWith m done) {a : FileId}
    (ha : a ∈ done) :
    ¬ TransGen (UsesFile m) a a := by
  induction done with
  | nil => exact absurd ha List.not_mem_nil
  | cons id rest ih =>
    intro hcycle
    rcases List.mem_cons.mp ha with rfl | ha
    · obtain ⟨b, hab, hba⟩ := TransGen.head'_iff.mp hcycle
      have hb : m.file? b ≠ none := by
        rcases ReflTransGen.cases_head hba with rfl | ⟨c, hbc, -⟩
        · exact hab.live
        · exact hbc.live
      exact ih h.2 (h.2.reaches (h.1 b hab hb) hba hab.live) hcycle
    · exact ih h.2 ha hcycle

/-! ### A search that finds nothing -/

/-- What a search from a file leaves behind: everything done before, and the file. -/
structure SearchLeaves (m : Model) (s s' : Search) (id : FileId) : Prop where
  settled : DoneWith m s.done → DoneWith m s'.done
  done : s.done ⊆ s'.done
  visited : m.file? id ≠ none → id ∈ s'.done

theorem leaves_followUses {visit : Search → FileId → Search} {path : List FileId}
    (hgrow : ∀ s id, (visit s id).cycles = [] → s.cycles = [])
    (hvisit : ∀ s id, id ∉ path → (visit s id).cycles = [] → SearchLeaves m s (visit s id) id)
    (uses : List FileReference) : ∀ s : Search, (uses.foldl (followUse visit path) s).cycles = [] →
      (DoneWith m s.done → DoneWith m (uses.foldl (followUse visit path) s).done) ∧
      s.done ⊆ (uses.foldl (followUse visit path) s).done ∧
      ∀ use ∈ uses, ∀ b, use.target = some b → m.file? b ≠ none →
        b ∈ (uses.foldl (followUse visit path) s).done := by
  induction uses with
  | nil => exact fun s _ => ⟨id, List.Subset.refl _, by simp⟩
  | cons use rest ih =>
    intro s hnone
    rw [List.foldl_cons] at hnone ⊢
    have hnext := cycles_foldl (cycles_followUse hgrow) rest _ hnone
    obtain ⟨hsettled, hdone, hrest⟩ := ih _ hnone
    -- what following the first use leaves behind
    have hstep : (DoneWith m s.done → DoneWith m (followUse visit path s use).done) ∧
        s.done ⊆ (followUse visit path s use).done ∧
        ∀ b, use.target = some b → m.file? b ≠ none → b ∈ (followUse visit path s use).done := by
      unfold followUse at hnext ⊢
      cases ht : use.target with
      | none => exact ⟨fun h => h, List.Subset.refl _, fun b hb => by simp at hb⟩
      | some target =>
        simp only [ht] at hnext ⊢
        split at hnext
        · exact absurd hnext (by simp)
        next hpath =>
          rw [if_neg hpath]
          split at hnext
          next hin =>
            rw [if_pos hin]
            refine ⟨fun h => h, List.Subset.refl _, fun b hb _ => ?_⟩
            obtain rfl := Option.some.inj hb
            simpa using hin
          next hin =>
            rw [if_neg hin]
            have hleaves := hvisit s target (by simpa using hpath) hnext
            refine ⟨hleaves.settled, hleaves.done, fun b hb hlive => ?_⟩
            obtain rfl := Option.some.inj hb
            exact hleaves.visited hlive
    refine ⟨fun h => hsettled (hstep.1 h), fun _ hx => hdone (hstep.2.1 hx),
      fun u hu b hb hlive => ?_⟩
    rcases List.mem_cons.mp hu with rfl | hu
    · exact hdone (hstep.2.2 b hb hlive)
    · exact hrest u hu b hb hlive

/-- The path in hand is one of different files of the model. -/
structure UsePath (m : Model) (path : List FileId) : Prop where
  nodup : path.Nodup
  live : ∀ id ∈ path, m.file? id ≠ none

theorem UsePath.length_le {path : List FileId} (h : UsePath m path) :
    path.length ≤ m.files.length := by
  have hsub : path ⊆ m.files.map (·.id) := fun id hid => by
    obtain ⟨f, hf⟩ := Option.ne_none_iff_exists'.mp (h.live id hid)
    obtain ⟨hmem, rfl⟩ := Model.mem_of_file? hf
    exact List.mem_map_of_mem hmem
  have := (List.subperm_of_subset h.nodup hsub).length_le
  rwa [List.length_map] at this

/-- **A search that finds no circle is done with its file and all that it uses.** -/
theorem leaves_visitUses (fuel : Nat) :
    ∀ (path : List FileId) (s : Search) (id : FileId), UsePath m path →
    id ∉ path → m.files.length < fuel + path.length → (visitUses m fuel path s id).cycles = [] →
      SearchLeaves m s (visitUses m fuel path s id) id := by
  induction fuel with
  | zero =>
    intro path s id hpath _ hlen
    have := hpath.length_le
    omega
  | succ fuel ih =>
    intro path s id hpath hid hlen hnone
    unfold visitUses at hnone ⊢
    cases hf : m.file? id with
    | none => exact ⟨fun h => h, List.Subset.refl _, fun h => absurd hf h⟩
    | some f =>
      simp only [hf] at hnone ⊢
      have hpath' : UsePath m (path ++ [id]) := by
        refine ⟨List.nodup_append.mpr ⟨hpath.nodup, List.nodup_singleton _, ?_⟩, fun a ha => ?_⟩
        · rintro a ha b hb rfl
          rw [List.mem_singleton] at hb
          exact hid (hb ▸ ha)
        · rcases List.mem_append.mp ha with ha | ha
          · exact hpath.live a ha
          · rw [List.mem_singleton.mp ha, hf]
            simp
      obtain ⟨hsettled, hdone, huses⟩ :=
        leaves_followUses (m := m) (cycles_visitUses m fuel (path ++ [id]))
          (fun s a ha => ih (path ++ [id]) s a hpath' ha
            (by rw [List.length_append, List.length_singleton]; omega))
        f.uses s hnone
      refine ⟨fun h => ⟨fun b hab hb => ?_, hsettled h⟩,
        fun _ hx => List.mem_cons_of_mem _ (hdone hx), fun _ => List.mem_cons_self⟩
      obtain ⟨g, hg, use, huse, ht⟩ := hab
      obtain rfl := Option.some.inj (hf.symm.trans hg)
      exact huses use huse b ht hb

def searchFrom (m : Model) (s : Search) (f : ModelFile) : Search :=
  if s.done.contains f.id then s else visitUses m (m.files.length + 1) [] s f.id

theorem useCycles_eq (m : Model) : useCycles m = (m.files.foldl (searchFrom m) {}).cycles := rfl

theorem leaves_search (files : List ModelFile) (hlive : ∀ f ∈ files, m.file? f.id ≠ none) :
    ∀ s : Search, DoneWith m s.done → (files.foldl (searchFrom m) s).cycles = [] →
      DoneWith m (files.foldl (searchFrom m) s).done ∧
      s.done ⊆ (files.foldl (searchFrom m) s).done ∧
        ∀ f ∈ files, f.id ∈ (files.foldl (searchFrom m) s).done := by
  have hgrow : ∀ s f, (searchFrom m s f).cycles = [] → s.cycles = [] := by
    intro s f h
    unfold searchFrom at h
    split at h
    · exact h
    · exact cycles_visitUses _ _ _ _ _ h
  induction files with
  | nil => exact fun s hs _ => ⟨hs, List.Subset.refl _, by simp⟩
  | cons f rest ih =>
    intro s hs hnone
    rw [List.foldl_cons] at hnone ⊢
    have hnext := cycles_foldl hgrow rest _ hnone
    have hstep : DoneWith m (searchFrom m s f).done ∧ s.done ⊆ (searchFrom m s f).done ∧
        f.id ∈ (searchFrom m s f).done := by
      unfold searchFrom at hnext ⊢
      split at hnext
      next hin =>
        rw [if_pos hin]
        exact ⟨hs, List.Subset.refl _, by simpa using hin⟩
      next hin =>
        rw [if_neg hin]
        have hleaves :=
          leaves_visitUses _ [] s f.id ⟨List.nodup_nil, by simp⟩ List.not_mem_nil (by simp) hnext
        exact ⟨hleaves.settled hs, hleaves.done, hleaves.visited (hlive f List.mem_cons_self)⟩
    obtain ⟨hsettled, hdone, hrest⟩ :=
      ih (fun g hg => hlive g (List.mem_cons_of_mem _ hg)) _ hstep.1 hnone
    refine ⟨hsettled, fun _ hx => hdone (hstep.2.1 hx), fun g hg => ?_⟩
    rcases List.mem_cons.mp hg with rfl | hg
    · exact hdone hstep.2.2
    · exact hrest g hg

/-! ### What the search reports -/

structure UseCycle.IsCircle (m : Model) (c : UseCycle) : Prop where
  two_le : 2 ≤ c.chain.length
  uses : c.chain.IsChain (UsesFile m)
  closed : c.chain.head? = c.chain.getLast?

theorem UseCycle.IsCircle.not_acyclic {c : UseCycle} (h : c.IsCircle m) : ¬ UsesAcyclic m := by
  intro hacyclic
  obtain ⟨a, b, rest, hc⟩ : ∃ a b rest, c.chain = a :: b :: rest := by
    match hchain : c.chain, h.two_le with
    | a :: b :: rest, _ => exact ⟨a, b, rest, rfl⟩
  have hchain := h.uses
  have hclosed := h.closed
  rw [hc] at hchain hclosed
  rw [List.head?_cons, List.getLast?_cons_cons] at hclosed
  -- the first file reaches every other one, and the last one is the first
  have hreaches := List.isChain_iff_pairwise.mp (hchain.imp fun _ _ => TransGen.single)
  exact hacyclic a ((List.pairwise_cons.mp hreaches).1 a (List.mem_of_getLast? hclosed.symm))

def Circles (m : Model) (s : Search) : Prop := ∀ c ∈ s.cycles, c.IsCircle m

/-- **A use that leads back into the path in hand closes a circle.** -/
theorem isCircle_of_mem {path : List FileId} {id target : FileId} (use : FileReference)
    (hpath : (path ++ [id]).IsChain (UsesFile m)) (hedge : UsesFile m id target)
    (hmem : target ∈ path ++ [id]) :
    UseCycle.IsCircle m ⟨use, (path ++ [id]).dropWhile (· != target) ++ [target]⟩ := by
  obtain ⟨before, behind, he, hbefore⟩ := List.eq_append_cons_of_mem hmem
  have hdrop : (path ++ [id]).dropWhile (· != target) = target :: behind := by
    rw [he, List.dropWhile_append_of_pos fun a ha => by simpa using ne_of_mem_of_not_mem ha hbefore,
      List.dropWhile_cons_of_neg (by simp)]
  have hlast : (target :: behind).getLast? = some id := by
    rw [← List.getLast?_append_cons before, ← he, List.getLast?_concat]
  rw [he] at hpath
  rw [hdrop]
  refine ⟨by
    simp, List.isChain_append.mpr ⟨(List.isChain_append.mp hpath).2.1, .singleton _, ?_⟩, ?_⟩
  · intro a ha b hb
    rw [hlast, Option.mem_some_iff] at ha
    rw [List.head?_cons, Option.mem_some_iff] at hb
    exact ha ▸ hb ▸ hedge
  · exact List.getLast?_concat.symm

theorem Circles.visitUses (fuel : Nat) : ∀ (path : List FileId) (s : Search) (id : FileId),
    (path ++ [id]).IsChain (UsesFile m) → Circles m s → Circles m (visitUses m fuel path s id) := by
  induction fuel with
  | zero => exact fun _ _ _ _ h => h
  | succ fuel ih =>
    intro path s id hpath h
    unfold Linking.visitUses
    cases hf : m.file? id with
    | none => exact h
    | some f =>
      have hall : Circles m
          (f.uses.foldl (followUse (Linking.visitUses m fuel (path ++ [id])) (path ++ [id]))
            s) := by
        refine List.foldlRecOn f.uses _ h fun s hs use huse => ?_
        unfold followUse
        cases ht : use.target with
        | none => exact hs
        | some target =>
          have hedge : UsesFile m id target := ⟨f, hf, use, huse, ht⟩
          simp only []
          split
          next hin =>
            intro c hc
            rcases List.mem_append.mp hc with hc | hc
            · exact hs c hc
            · rw [List.mem_singleton.mp hc]
              exact isCircle_of_mem use hpath hedge (by simpa using hin)
          · split
            · exact hs
            · refine ih (path ++ [id]) s target
                (List.isChain_append.mpr ⟨hpath, .singleton _, ?_⟩) hs
              intro a ha b hb
              rw [List.getLast?_concat, Option.mem_some_iff] at ha
              rw [List.head?_cons, Option.mem_some_iff] at hb
              exact ha ▸ hb ▸ hedge
      exact hall

/-- **Whatever the search reports is a circle of uses.** -/
theorem isCircle_of_useCycles : ∀ c ∈ useCycles m, c.IsCircle m := by
  have hall : Circles m (m.files.foldl (searchFrom m) {}) :=
    List.foldlRecOn m.files _ (fun c hc => absurd hc List.not_mem_nil) fun s hs f _ => by
      unfold searchFrom
      split
      · exact hs
      · exact hs.visitUses _ [] s f.id (.singleton _)
  exact hall

/-- **The search finds something if and only if files use each other in a circle.** -/
theorem useCycles_eq_nil_iff (hids : (m.files.map (·.id)).Nodup) :
    useCycles m = [] ↔ UsesAcyclic m := by
  rw [useCycles_eq]
  constructor
  · intro hnone a hcycle
    have hlive : ∀ f ∈ m.files, m.file? f.id ≠ none := fun f hf => by
      rw [Model.file?_of_mem hids hf]
      simp
    obtain ⟨hsettled, -, hall⟩ := leaves_search m.files hlive {} trivial hnone
    obtain ⟨b, hab, -⟩ := TransGen.head'_iff.mp hcycle
    obtain ⟨f, hf, -⟩ := hab
    obtain ⟨hmem, rfl⟩ := Model.mem_of_file? hf
    exact hsettled.not_circular (hall f hmem) hcycle
  · intro h
    exact List.eq_nil_iff_forall_not_mem.mpr fun c hc => (isCircle_of_useCycles c hc).not_acyclic h

end EntityModel.Linking
