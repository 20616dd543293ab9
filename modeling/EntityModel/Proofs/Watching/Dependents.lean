import Mathlib.Data.List.Perm.Subperm
import Mathlib.Logic.Relation
import EntityModel.Watching.Host

/-!
# Dependents

A file depends on the files that it uses and on those that it takes aliases from.  The dependents
that a host goes by are found by following these links backwards for as long as new files turn up;
they are exactly the files from which some path of links leads to the given one
(`Model.mem_withDependents`), so they are closed under dependents again.  Links may run in circles:
the search passes each file once, and its bound never cuts it short (`Model.searchEnds_iff`).
-/

namespace EntityModel

open Relation (ReflTransGen)

namespace Model

def DependsOn (m : Model) (a b : FileId) : Prop := ∃ f ∈ m.files, f.id = a ∧ f.dependsOn b = true

variable {m : Model} {a b : FileId}

/-- What the search has found once the dependents of the files before `index` are among it. -/
structure Spread (m : Model) (b : FileId) (index : Nat) (found : List FileId) : Prop where
  start : b ∈ found
  nodup : found.Nodup
  known : found ⊆ b :: m.files.map (·.id)
  reached : ∀ a ∈ found, ReflTransGen m.DependsOn a b
  done : ∀ i < index, ∀ c, found[i]? = some c → ∀ a, m.DependsOn a c → a ∈ found

theorem Spread.length_le {index : Nat} {found : List FileId} (h : m.Spread b index found) :
    found.length ≤ m.files.length + 1 := by
  have := (h.nodup.subperm h.known).length_le
  simpa using this

theorem Spread.init (m : Model) (b : FileId) : m.Spread b 0 [b] where
  start := List.mem_singleton_self b
  nodup := List.pairwise_singleton _ b
  known := by simp
  reached a ha := by
    rw [List.mem_singleton.mp ha]
  done i hi := absurd hi (Nat.not_lt_zero i)

theorem Spread.step {index : Nat} {found : List FileId} {c : FileId} (h : m.Spread b index found)
    (hids : (m.files.map (·.id)).Nodup) (hc : found[index]? = some c) :
    m.Spread b (index + 1)
      (found ++ (m.files.filter fun f => f.dependsOn c && !found.contains f.id).map (·.id)) := by
  have hmem : ∀ a, a ∈ (m.files.filter fun f => f.dependsOn c && !found.contains f.id).map (·.id) ↔
      m.DependsOn a c ∧ a ∉ found := by
    intro a
    simp only [List.mem_map, List.mem_filter, Bool.and_eq_true, Bool.not_eq_true', DependsOn,
      List.contains_eq_mem, decide_eq_false_iff_not]
    constructor
    · rintro ⟨f, ⟨hf, hdep, hnew⟩, rfl⟩
      exact ⟨⟨f, hf, rfl, hdep⟩, hnew⟩
    · rintro ⟨⟨f, hf, rfl, hdep⟩, hnew⟩
      exact ⟨f, ⟨hf, hdep, hnew⟩, rfl⟩
  have hcm : c ∈ found := List.mem_of_getElem? hc
  refine ⟨List.mem_append_left _ h.start, ?_, ?_, ?_, ?_⟩
  · refine List.nodup_append.mpr ⟨h.nodup, (hids.sublist (List.filter_sublist.map _)), ?_⟩
    rintro x hx y hy rfl
    exact ((hmem x).mp hy).2 hx
  · intro x hx
    rcases List.mem_append.mp hx with hx | hx
    · exact h.known hx
    · obtain ⟨f, hf, rfl, -⟩ := ((hmem x).mp hx).1
      exact List.mem_cons_of_mem _ (List.mem_map_of_mem hf)
  · intro x hx
    rcases List.mem_append.mp hx with hx | hx
    · exact h.reached x hx
    · exact .head ((hmem x).mp hx).1 (h.reached c hcm)
  · intro i hi d hd x hx
    have hlt : i < found.length := by
      have := (List.getElem?_eq_some_iff.mp hc).1
      omega
    rw [List.getElem?_append_left hlt] at hd
    by_cases hin : x ∈ found
    · exact List.mem_append_left _ hin
    · rcases Nat.lt_succ_iff_lt_or_eq.mp hi with hi | rfl
      · exact List.mem_append_left _ (h.done i hi d hd x hx)
      · obtain rfl := Option.some.inj (hc.symm.trans hd)
        exact List.mem_append_right _ ((hmem x).mpr ⟨hx, hin⟩)

/-- The search ends with the dependents of all that it has found. -/
theorem Spread.addDependents (hids : (m.files.map (·.id)).Nodup) :
    ∀ {fuel index : Nat} {found : List FileId}, m.Spread b index found →
      m.files.length + 2 ≤ fuel + index →
      ∃ last, m.Spread b last (m.addDependents fuel index found) ∧
        (m.addDependents fuel index found).length ≤ last
  | 0, index, found, h, hle => ⟨index, h, by have := h.length_le; show found.length ≤ index; omega⟩
  | fuel + 1, index, found, h, hle => by
    unfold Model.addDependents
    cases hc : found[index]? with
    | none => exact ⟨index, h, List.getElem?_eq_none_iff.mp hc⟩
    | some c => exact (h.step hids hc).addDependents hids (by omega)

theorem exists_spread (hids : (m.files.map (·.id)).Nodup) (b : FileId) :
    ∃ last, m.Spread b last (m.withDependents b) ∧ (m.withDependents b).length ≤ last :=
  (Spread.init m b).addDependents hids (Nat.le_refl _)

/-- **The dependents of a file are the files that lead to it.** -/
theorem mem_withDependents (hids : (m.files.map (·.id)).Nodup) :
    a ∈ m.withDependents b ↔ ReflTransGen m.DependsOn a b := by
  obtain ⟨last, hspread, hlast⟩ := exists_spread hids b
  refine ⟨hspread.reached a, fun hpath => ?_⟩
  induction hpath using ReflTransGen.head_induction_on with
  | refl => exact hspread.start
  | head hedge _ ih =>
    obtain ⟨i, hi⟩ := List.getElem?_of_mem ih
    have hlt := (List.getElem?_eq_some_iff.mp hi).1
    exact hspread.done i (Nat.lt_of_lt_of_le hlt hlast) _ hi _ hedge

theorem nodup_withDependents (hids : (m.files.map (·.id)).Nodup) (b : FileId) :
    (m.withDependents b).Nodup := by
  obtain ⟨last, hspread, -⟩ := exists_spread hids b
  exact hspread.nodup

/-! ### The search comes to an end -/

/-- The search from `index` on, however many files it takes, comes to its end with `last`. -/
inductive SearchEnds (m : Model) : Nat → List FileId → List FileId → Prop
  | past {index : Nat} {found : List FileId} : found[index]? = none → SearchEnds m index found found
  | next {index : Nat} {found last : List FileId} {c : FileId} : found[index]? = some c →
      SearchEnds m (index + 1)
        (found ++ (m.files.filter fun f => f.dependsOn c && !found.contains f.id).map (·.id)) last →
      SearchEnds m index found last

theorem SearchEnds.unique {index : Nat} {found last last' : List FileId}
    (h : m.SearchEnds index found last) (h' : m.SearchEnds index found last') : last = last' := by
  induction h with
  | past hpast =>
    cases h' with
    | past => rfl
    | next hnext => exact absurd hpast (by rw [hnext]; simp)
  | next hnext _ ih =>
    cases h' with
    | past hpast => exact absurd hpast (by rw [hnext]; simp)
    | next hnext' hrest =>
      obtain rfl := Option.some.inj (hnext.symm.trans hnext')
      exact ih hrest

/-- A search that has not gone past what it has found ends before the bound on its steps does. -/
theorem Spread.searchEnds (hids : (m.files.map (·.id)).Nodup) :
    ∀ {fuel index : Nat} {found : List FileId}, m.Spread b index found → index ≤ found.length →
      m.files.length + 2 ≤ fuel + index →
      m.SearchEnds index found (m.addDependents fuel index found)
  | 0, index, found, h, hindex, hle => by
    have hlength := h.length_le
    omega
  | fuel + 1, index, found, h, hindex, hle => by
    unfold Model.addDependents
    cases hc : found[index]? with
    | none => exact .past hc
    | some c =>
      have hlt := (List.getElem?_eq_some_iff.mp hc).1
      refine .next hc ((h.step hids hc).searchEnds hids ?_ (by omega))
      rw [List.length_append]
      omega

/-- **The search for dependents comes to an end**, and what it has found then are the dependents. -/
theorem searchEnds_iff (hids : (m.files.map (·.id)).Nodup) {last : List FileId} :
    m.SearchEnds 0 [b] last ↔ last = m.withDependents b := by
  have hends : m.SearchEnds 0 [b] (m.withDependents b) :=
    (Spread.init m b).searchEnds hids (Nat.zero_le _) (Nat.le_refl _)
  exact ⟨fun h => h.unique hends, fun h => h ▸ hends⟩

end Model

end EntityModel
