import EntityModel.Proofs.Model.Numbering
import Mathlib.Data.List.Chain
import Mathlib.Data.List.Perm.Subperm
import Mathlib.Logic.Relation

/-!
# Chains of parents

A class has one parent at most, so the chain of its parents is one walk: it ends at a class without
a parent, or it runs into a circle, which the class itself may lie on or not.  Both walks along the
chain stop in either case and miss nothing.  The ancestors are the longest chain without repetition
(`parentChain_ancestors`), there is only one such chain (`ParentChain.eq`), and a class inherits
from itself if and only if it lies on a circle (`inheritsFromItself_iff`).
-/

namespace EntityModel

open Relation

/-- In a chain everything but the last is followed by something. -/
theorem exists_next_of_mem_dropLast {α : Type} {R : α → α → Prop} {l : List α}
    (h : l.IsChain R) {a : α} (ha : a ∈ l.dropLast) : ∃ b, R a b := by
  obtain ⟨i, hi, rfl⟩ := List.mem_iff_getElem.mp ha
  rw [List.length_dropLast] at hi
  rw [List.getElem_dropLast]
  exact ⟨_, List.isChain_iff_getElem.mp h i (by omega)⟩

/-! ### Following -/

section Follow

variable {α : Type} [DecidableEq α] {next : α → Option α}

theorem follow_cons (next : α → Option α) (fuel : Nat) {seen : List α} {a : α} (h : a ∉ seen) :
    follow next (fuel + 1) seen (some a) = a :: follow next fuel (a :: seen) (next a) := by
  rw [follow, if_neg h]

theorem isChain_follow (fuel : Nat) : ∀ (seen : List α) (a : α),
    (a :: follow next fuel seen (next a)).IsChain fun x y => next x = some y := by
  induction fuel with
  | zero => exact fun _ _ => .singleton _
  | succ fuel ih =>
    intro seen a
    cases hnext : next a with
    | none => exact .singleton _
    | some b =>
      by_cases hb : b ∈ seen
      · rw [follow, if_pos hb]
        exact .singleton _
      · rw [follow_cons next fuel hb]
        exact List.isChain_cons_cons.mpr ⟨hnext, ih _ b⟩

theorem new_of_follow (fuel : Nat) : ∀ (seen : List α) (start : Option α),
    ∀ x ∈ follow next fuel seen start, x ∉ seen := by
  induction fuel with
  | zero => exact fun _ _ x hx => absurd hx List.not_mem_nil
  | succ fuel ih =>
    intro seen start x hx
    cases start with
    | none => exact absurd hx List.not_mem_nil
    | some a =>
      by_cases ha : a ∈ seen
      · rw [follow, if_pos ha] at hx
        exact absurd hx List.not_mem_nil
      · rw [follow_cons next fuel ha] at hx
        rcases List.mem_cons.mp hx with rfl | hx
        · exact ha
        · exact fun hseen => ih _ _ x hx (List.mem_cons_of_mem _ hseen)

theorem nodup_follow (fuel : Nat) :
    ∀ (seen : List α) (start : Option α), (follow next fuel seen start).Nodup := by
  induction fuel with
  | zero => exact fun _ _ => List.nodup_nil
  | succ fuel ih =>
    intro seen start
    cases start with
    | none => exact List.nodup_nil
    | some a =>
      by_cases ha : a ∈ seen
      · rw [follow, if_pos ha]
        exact List.nodup_nil
      · rw [follow_cons next fuel ha]
        exact List.nodup_cons.mpr
          ⟨fun hmem => new_of_follow fuel _ _ a hmem List.mem_cons_self, ih _ _⟩

/-- **With fuel to spare, whatever comes after something met was met as well.** -/
theorem closed_follow (fuel : Nat) :
    ∀ (seen : List α) (a : α), (follow next fuel seen (next a)).length < fuel →
    ∀ x ∈ a :: follow next fuel seen (next a), ∀ y, next x = some y →
      y ∈ seen ∨ y ∈ follow next fuel seen (next a) := by
  induction fuel with
  | zero => exact fun _ _ h => absurd h (Nat.not_lt_zero _)
  | succ fuel ih =>
    intro seen a hlen x hx y hy
    cases hnext : next a with
    | none =>
      rw [hnext, show follow next (fuel + 1) seen none = [] from rfl, List.mem_singleton] at hx
      rw [hx, hnext] at hy
      exact absurd hy (by simp)
    | some b =>
      rw [hnext] at hlen hx
      by_cases hb : b ∈ seen
      · rw [follow, if_pos hb, List.mem_singleton] at hx
        rw [hx, hnext] at hy
        exact Or.inl (Option.some.inj hy ▸ hb)
      · rw [follow_cons next fuel hb] at hlen hx ⊢
        rcases List.mem_cons.mp hx with rfl | hx
        · obtain rfl := Option.some.inj (hnext.symm.trans hy)
          exact Or.inr List.mem_cons_self
        · rcases ih (b :: seen) b (by simpa using hlen) x hx y hy with hmet | hlater
          · exact (List.mem_cons.mp hmet).symm.imp_right fun he => List.mem_cons.mpr (Or.inl he)
          · exact Or.inr (List.mem_cons_of_mem _ hlater)

end Follow

namespace Model

variable {m : Model}

def IsParent (m : Model) (a b : ClassId) : Prop := m.parent? a = some b

/-- The parents of a class in turn, up to one that has none or whose parent was met. -/
structure ParentChain (m : Model) (id : ClassId) (chain : List ClassId) : Prop where
  parents : (id :: chain).IsChain m.IsParent
  nodup : (id :: chain).Nodup
  stops : ∀ parent, m.IsParent (chain.getLastD id) parent → parent ∈ id :: chain

theorem IsParent.live {a b : ClassId} (h : m.IsParent a b) : m.cls? a ≠ none := by
  unfold IsParent parent? at h
  intro hnone
  simp [hnone] at h

/-- There are no more different classes than the model has. -/
theorem Numbered.length_le_classes (hm : m.Numbered) {ids : List ClassId} (hnodup : ids.Nodup)
    (hlive : ∀ id ∈ ids, m.cls? id ≠ none) : ids.length ≤ m.classes.length := by
  have hsub : ids ⊆ m.classes.map (·.id) := fun id hid => by
    obtain ⟨c, hc⟩ := Option.ne_none_iff_exists'.mp (hlive id hid)
    obtain ⟨hmem, rfl⟩ := hm.cls?_iff.mp hc
    exact List.mem_map_of_mem hmem
  have := (List.subperm_of_subset hnodup hsub).length_le
  rwa [List.length_map] at this

/-! ### Ancestors -/

theorem isChain_ancestors (m : Model) (id : ClassId) : (id :: m.ancestors id).IsChain m.IsParent :=
  isChain_follow _ _ _

theorem nodup_ancestors (m : Model) (id : ClassId) : (id :: m.ancestors id).Nodup :=
  List.nodup_cons.mpr ⟨fun hmem => new_of_follow _ _ _ id hmem List.mem_cons_self,
    nodup_follow _ _ _⟩

theorem Numbered.length_ancestors_le (hm : m.Numbered) (id : ClassId) :
    (m.ancestors id).length ≤ m.classes.length := by
  have hle :=
    hm.length_le_classes ((nodup_ancestors m id).sublist (List.dropLast_sublist _)) fun a ha => by
    obtain ⟨b, hb⟩ := exists_next_of_mem_dropLast (isChain_ancestors m id) ha
    exact hb.live
  rwa [List.length_dropLast, List.length_cons, Nat.add_sub_cancel] at hle

theorem Numbered.closed_ancestors (hm : m.Numbered) {id a b : ClassId}
    (ha : a ∈ id :: m.ancestors id) (hab : m.IsParent a b) : b ∈ id :: m.ancestors id := by
  have hfuel := Nat.lt_succ_of_le (hm.length_ancestors_le id)
  rcases closed_follow _ [id] id hfuel a ha b hab with hstart | hlater
  · exact List.mem_cons.mpr (Or.inl (List.mem_singleton.mp hstart))
  · exact List.mem_cons_of_mem _ hlater

/-- **The ancestors are the chain of parents.** -/
theorem Numbered.parentChain_ancestors (hm : m.Numbered) (id : ClassId) :
    m.ParentChain id (m.ancestors id) where
  parents := isChain_ancestors m id
  nodup := nodup_ancestors m id
  stops _ h := hm.closed_ancestors (List.getLastD_mem_cons ..) h

theorem parent_unique {a b c : ClassId} (hb : m.IsParent a b) (hc : m.IsParent a c) : b = c :=
  Option.some.inj (hb.symm.trans hc)

/-- Of two chains from a class one goes on where the other ends. -/
theorem prefix_or_prefix {chain : List ClassId} : ∀ {id : ClassId} {other : List ClassId},
    (id :: chain).IsChain m.IsParent → (id :: other).IsChain m.IsParent → chain <+:
    other ∨ other <+: chain := by
  induction chain with
  | nil => exact fun _ _ => Or.inl (List.nil_prefix)
  | cons a rest ih =>
    intro id other h h'
    cases other with
    | nil => exact Or.inr (List.nil_prefix)
    | cons b others =>
      obtain ⟨hda, h⟩ := List.isChain_cons_cons.mp h
      obtain ⟨hdb, h'⟩ := List.isChain_cons_cons.mp h'
      obtain rfl := parent_unique hda hdb
      simpa only [List.prefix_cons_inj] using ih h h'

namespace ParentChain

variable {id : ClassId} {chain : List ClassId}

theorem split (id : ClassId) (chain : List ClassId) :
    id :: chain = (id :: chain).dropLast ++ [chain.getLastD id] := by
  rw [← List.getLast_eq_getLastD (List.cons_ne_nil _ _), List.dropLast_concat_getLast]

/-- Every class on the chain but the last one is followed by its parent. -/
theorem closed (h : m.ParentChain id chain) {a b : ClassId} (ha : a ∈ id :: chain)
    (hab : m.IsParent a b) :
    b ∈ id :: chain := by
  obtain ⟨before, behind, he⟩ := List.append_of_mem ha
  have hchain := h.parents
  rw [he] at hchain ⊢
  cases behind with
  | nil =>
    have hlast : chain.getLastD id = a := by
      rw [split] at he
      exact (List.append_inj' he rfl).2 |> List.singleton_inj.mp
    rw [← he]
    exact h.stops b (hlast ▸ hab)
  | cons c rest =>
    obtain ⟨hac, -⟩ := List.isChain_cons_cons.mp (List.isChain_append.mp hchain).2.1
    simp [parent_unique hab hac]

/-- **The chain is what follows the class over any number of parents**, the class itself apart. -/
theorem mem_iff (h : m.ParentChain id chain) {a : ClassId} :
    a ∈ chain ↔ TransGen m.IsParent id a ∧ a ≠ id := by
  obtain ⟨hid, -⟩ := List.nodup_cons.mp h.nodup
  constructor
  · intro ha
    have hreaches := List.isChain_iff_pairwise.mp (h.parents.imp fun _ _ => TransGen.single)
    exact ⟨(List.pairwise_cons.mp hreaches).1 a ha, ne_of_mem_of_not_mem ha hid⟩
  · rintro ⟨hreach, hne⟩
    have hmem : a ∈ id :: chain := by
      clear hne
      induction hreach with
      | single hab => exact h.closed List.mem_cons_self hab
      | tail _ hab ih => exact h.closed ih hab
    exact (List.mem_cons.mp hmem).resolve_left hne

/-- **There is only one such chain.** -/
theorem eq {other : List ClassId} (h : m.ParentChain id chain) (h' : m.ParentChain id other) :
    chain = other := by
  have hsame : ∀ a, a ∈ chain ↔ a ∈ other := fun a => h.mem_iff.trans h'.mem_iff.symm
  have hlength : chain.length = other.length :=
    Nat.le_antisymm (List.subperm_of_subset (List.nodup_cons.mp h.nodup).2 fun a =>
      (hsame a).mp).length_le (List.subperm_of_subset (List.nodup_cons.mp h'.nodup).2 fun a =>
        (hsame a).mpr).length_le
  rcases prefix_or_prefix h.parents h'.parents with hp | hp
  · exact hp.eq_of_length hlength
  · exact (hp.eq_of_length hlength.symm).symm

/-- **The chain ends at a class without a parent** if no class on it follows itself. -/
theorem root (h : m.ParentChain id chain)
    (hacyclic : ∀ a ∈ id :: chain, ¬ TransGen m.IsParent a a) :
    m.parent? (chain.getLastD id) = none := by
  cases hparent : m.parent? (chain.getLastD id) with
  | none => rfl
  | some parent =>
    have hmem := h.stops parent hparent
    have hreaches := List.isChain_iff_pairwise.mp (h.parents.imp fun _ _ => TransGen.single)
    refine absurd ?_ (hacyclic parent hmem)
    rw [split] at hmem hreaches
    rcases List.mem_append.mp hmem with hbefore | hlast
    · exact ((List.pairwise_append.mp hreaches).2.2 parent hbefore
        _ (List.mem_singleton_self _)).tail hparent
    · obtain he := List.mem_singleton.mp hlast
      exact .single (by rw [IsParent, he]; exact he ▸ hparent)

end ParentChain

/-! ### Circles -/

theorem circular_of_reaches {id a : ClassId} (h : TransGen m.IsParent id id)
    (ha : TransGen m.IsParent id a) :
    TransGen m.IsParent a id := by
  have hstep : ∀ {a b}, TransGen m.IsParent a id → m.IsParent a b → TransGen m.IsParent b id := by
    intro a b ha hab
    obtain ⟨c, hac, hc⟩ := TransGen.head'_iff.mp ha
    obtain rfl := parent_unique hab hac
    rcases reflTransGen_iff_eq_or_transGen.mp hc with rfl | hc
    · exact h
    · exact hc
  induction ha with
  | single hab => exact hstep h hab
  | tail _ hab ih => exact hstep ih hab

/-- **A class inherits from itself if and only if it follows itself over some number of
parents.** -/
theorem Numbered.inheritsFromItself_iff (hm : m.Numbered) {id : ClassId} :
    m.inheritsFromItself id = true ↔ TransGen m.IsParent id id := by
  unfold inheritsFromItself
  rw [List.contains_iff_mem]
  have hchain : (id :: follow m.parent? (m.classes.length + 1) [] (m.parent? id)).IsChain
      m.IsParent :=
    isChain_follow _ _ _
  have hnodup : (follow m.parent? (m.classes.length + 1) [] (m.parent? id)).Nodup :=
    nodup_follow _ _ _
  have hclosed := @closed_follow _ _ m.parent? (m.classes.length + 1) [] id
  generalize follow m.parent? (m.classes.length + 1) [] (m.parent? id)
    = walk at hchain hnodup hclosed ⊢
  have hreaches := (List.pairwise_cons.mp
    (List.isChain_iff_pairwise.mp (hchain.imp fun _ _ => TransGen.single))).1
  refine ⟨hreaches id, fun h => ?_⟩
  -- on a circle every class is there, so that there is fuel to spare
  have hlength : walk.length ≤ m.classes.length := hm.length_le_classes hnodup fun a ha => by
    obtain ⟨b, hb, -⟩ := TransGen.head'_iff.mp (circular_of_reaches h (hreaches a ha))
    exact hb.live
  have hmet : ∀ a ∈ id :: walk, ∀ b, m.IsParent a b → b ∈ walk := fun a ha b hab =>
    (hclosed (Nat.lt_succ_of_le hlength) a ha b hab).resolve_left List.not_mem_nil
  have hall : ∀ a, TransGen m.IsParent id a → a ∈ walk := fun a ha => by
    induction ha with
    | single hab => exact hmet id List.mem_cons_self _ hab
    | tail _ hab ih => exact hmet _ (List.mem_cons_of_mem _ ih) _ hab
  exact hall id h

end Model

end EntityModel
