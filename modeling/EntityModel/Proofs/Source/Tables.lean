import EntityModel.Model.Query
import EntityModel.Source.Registry
import Mathlib.Data.List.Nodup

/-!
# File tables and registries

A table keeps its ids in ascending order, so that no id stands in it twice, and looking an id up
after an insertion finds what was inserted.  A registry that holds no name twice gives every name
one id and every id one name, for good: the names in order of first mention.
-/

namespace EntityModel

section firstOccurrences

variable {α : Type} [BEq α] [LawfulBEq α]

theorem mem_firstOccurrences {as : List α} {a : α} : a ∈ firstOccurrences as ↔ a ∈ as := by
  induction as with
  | nil => rfl
  | cons x rest ih =>
    rw [firstOccurrences, List.mem_cons, List.mem_cons, List.mem_filter, ih]
    by_cases hx : a = x <;> simp [hx]

theorem firstOccurrences_concat [DecidableEq α] (as : List α) (a : α) :
    firstOccurrences (as ++ [a])
      = if a ∈ as then firstOccurrences as else firstOccurrences as ++ [a] := by
  induction as with
  | nil => rfl
  | cons x rest ih =>
    rw [List.cons_append, firstOccurrences, ih, firstOccurrences]
    by_cases hx : a = x
    · subst hx
      simp only [List.mem_cons_self, if_true]
      split <;> simp
    · by_cases hrest : a ∈ rest <;> simp [hx, hrest]

end firstOccurrences

theorem mem_of_lookup {κ β : Type} [BEq κ] [LawfulBEq κ] {t : List (κ × β)} {k : κ} {v : β}
    (h : t.lookup k = some v) : (k, v) ∈ t := by
  obtain ⟨before, after, rfl, -⟩ := List.lookup_eq_some_iff.mp h
  exact List.mem_append_right _ List.mem_cons_self

/-- Leaving out some keys of a table leaves the others with their values. -/
theorem lookup_filter_key {κ β : Type} [BEq κ] [LawfulBEq κ] (keep : κ → Bool)
    (t : List (κ × β)) (k : κ) :
    (t.filter fun x => keep x.1).lookup k = if keep k then t.lookup k else none := by
  induction t with
  | nil => simp
  | cons head rest ih =>
    obtain ⟨other, v⟩ := head
    rw [List.filter_cons, List.lookup_cons]
    by_cases hk : k = other
    · subst hk
      by_cases hkeep : keep k = true
      · rw [if_pos hkeep, if_pos hkeep, List.lookup_cons, beq_self_eq_true]
      · rw [if_neg hkeep, ih, if_neg hkeep, if_neg hkeep]
    · rw [beq_false_of_ne hk]
      split
      · rw [List.lookup_cons, beq_false_of_ne hk, ih]
      · exact ih

namespace FileTable

variable {α : Type}

def Sorted (t : FileTable α) : Prop := t.keys.Pairwise (· < ·)

theorem Sorted.nodup {t : FileTable α} (h : t.Sorted) : t.keys.Nodup := by
  refine List.Pairwise.imp ?_ h
  rintro a _ hab rfl
  exact Nat.lt_irrefl a.index hab

theorem mem_of_mem_insert {id : FileId} {v : α} {t : FileTable α} {e : FileId × α}
    (h : e ∈ insert id v t) : e = (id, v) ∨ e ∈ t := by
  induction t with
  | nil => exact Or.inl (List.mem_singleton.mp h)
  | cons head rest ih =>
    obtain ⟨other, w⟩ := head
    unfold insert at h
    split at h
    · exact List.mem_cons.mp h
    · split at h
      · rcases List.mem_cons.mp h with h | h
        · exact Or.inl h
        · exact Or.inr (List.mem_cons_of_mem _ h)
      · rcases List.mem_cons.mp h with rfl | h
        · exact Or.inr List.mem_cons_self
        · exact (ih h).imp_right (List.mem_cons_of_mem _)

theorem Sorted.insert {t : FileTable α} (h : t.Sorted) (id : FileId) (v : α) :
    Sorted (t.insert id v) := by
  induction t with
  | nil => exact List.pairwise_singleton _ _
  | cons head rest ih =>
    obtain ⟨other, w⟩ := head
    obtain ⟨hhead, hrest⟩ := List.pairwise_cons.mp h
    unfold FileTable.insert
    split
    next hlt =>
      refine List.pairwise_cons.mpr ⟨?_, h⟩
      intro k hk
      rcases List.mem_cons.mp hk with rfl | hk
      · exact hlt
      · exact Nat.lt_trans hlt (hhead k hk)
    next hnlt =>
      split
      next heq =>
        subst heq
        exact List.pairwise_cons.mpr ⟨hhead, hrest⟩
      next hne =>
        refine List.pairwise_cons.mpr ⟨?_, ih hrest⟩
        intro k hk
        obtain ⟨e, he, rfl⟩ := List.mem_map.mp hk
        rcases mem_of_mem_insert he with rfl | he
        · show other.index < id.index
          have h₁ : ¬ id.index < other.index := hnlt
          have h₂ : id.index ≠ other.index := fun h => hne (congrArg FileId.mk h)
          omega
        · exact hhead _ (List.mem_map_of_mem he)

theorem Sorted.erase {t : FileTable α} (h : t.Sorted) (id : FileId) : Sorted (t.erase id) :=
  List.Pairwise.sublist (List.filter_sublist.map _) h

theorem mem_of_mem_erase {t : FileTable α} {id : FileId} {e : FileId × α} (h : e ∈ t.erase id) :
    e ∈ t ∧ e.1 ≠ id := by simpa [erase] using h

theorem get?_cons (t : FileTable α) (id : FileId) (v : α) (k : FileId) :
    get? ((id, v) :: t) k = if k = id then some v else t.get? k := by
  unfold get?
  rw [List.lookup_cons]
  split
  next h => rw [if_pos (by simpa using h)]
  next h => rw [if_neg (by simpa using h)]

theorem mem_of_get? {t : FileTable α} {id : FileId} {v : α} (h : t.get? id = some v) :
    (id, v) ∈ t := by
  induction t with
  | nil => exact absurd h (by simp [get?])
  | cons head rest ih =>
    rw [get?_cons] at h
    split at h
    next hid =>
      obtain rfl := Option.some.inj h
      rw [hid]
      exact List.mem_cons_self
    · exact List.mem_cons_of_mem _ (ih h)

theorem get?_insert (t : FileTable α) (id : FileId) (v : α) (k : FileId) :
    get? (t.insert id v) k = if k = id then some v else t.get? k := by
  induction t with
  | nil => exact get?_cons [] id v k
  | cons head rest ih =>
    obtain ⟨other, w⟩ := head
    unfold insert
    split
    · exact get?_cons _ id v k
    · split
      next heq =>
        subst heq
        rw [get?_cons, get?_cons]
        split <;> rfl
      next hne =>
        rw [get?_cons, get?_cons, ih]
        split
        next hk => rw [if_neg (hk ▸ Ne.symm hne)]
        · rfl

theorem get?_eq_none {t : FileTable α} {id : FileId} : t.get? id = none ↔ id ∉ t.keys := by
  induction t with
  | nil => simp [get?, keys]
  | cons head rest ih =>
    rw [get?_cons, keys, List.map_cons, List.mem_cons, not_or]
    split
    next h => simp [h]
    next h => exact ih.trans ⟨fun hk => ⟨h, hk⟩, fun hk => hk.2⟩

theorem get?_of_mem {t : FileTable α} (h : t.Sorted) {id : FileId} {v : α} (hm : (id, v) ∈ t) :
    t.get? id = some v := by
  cases hget : t.get? id with
  | none => exact absurd (List.mem_map_of_mem (f := Prod.fst) hm) (get?_eq_none.mp hget)
  | some w =>
    have hinj := List.inj_on_of_nodup_map h.nodup (mem_of_get? hget) hm rfl
    rw [(Prod.mk.inj hinj).2]

theorem Sorted.ext {t t' : FileTable α} (h : t.Sorted) (h' : t'.Sorted)
    (hget : ∀ id, t.get? id = t'.get? id) : t = t' := by
  have hperm : t.Perm t' := by
    refine (List.perm_ext_iff_of_nodup (List.Nodup.of_map _ h.nodup)
      (List.Nodup.of_map _ h'.nodup)).mpr ?_
    exact fun ⟨id, v⟩ => ⟨fun hm => mem_of_get? ((hget id).symm.trans (get?_of_mem h hm)),
      fun hm => mem_of_get? ((hget id).trans (get?_of_mem h' hm))⟩
  refine hperm.eq_of_pairwise (fun a b _ _ hab hba => ?_) (List.pairwise_map.mp h)
    (List.pairwise_map.mp h')
  exact absurd hba (Nat.not_lt.mpr (Nat.le_of_lt hab))

theorem get?_erase (t : FileTable α) (id k : FileId) :
    get? (t.erase id) k = if k = id then none else t.get? k := by
  refine (lookup_filter_key (· != id) t k).trans ?_
  by_cases hk : k = id
  · rw [if_pos hk, if_neg (by simpa using hk)]
  · rw [if_neg hk, if_pos (by simpa using hk)]
    rfl

theorem insert_of_lt {t : FileTable α} {id : FileId} (v : α) (h : ∀ k ∈ t.keys, k < id) :
    t.insert id v = t ++ [(id, v)] := by
  induction t with
  | nil => rfl
  | cons head rest ih =>
    obtain ⟨other, w⟩ := head
    have hlt : other.index < id.index := h other List.mem_cons_self
    have hnlt : ¬ id < other := Nat.not_lt.mpr (Nat.le_of_lt hlt)
    have hne : ¬ id = other := fun he => Nat.ne_of_gt hlt (congrArg FileId.index he)
    rw [insert, if_neg hnlt, if_neg hne, ih fun k hk => h k (List.mem_cons_of_mem _ hk)]
    rfl

theorem erase_insert (t : FileTable α) (id : FileId) (v : α) :
    (t.insert id v).erase id = t.erase id := by
  induction t with
  | nil => simp [insert, erase]
  | cons head rest ih =>
    obtain ⟨other, w⟩ := head
    unfold insert
    split
    · simp [erase]
    · split
      next he => simp [erase, he]
      next hne =>
        unfold erase at ih ⊢
        rw [List.filter_cons, List.filter_cons, ih]

theorem erase_of_not_mem {t : FileTable α} {id : FileId} (h : id ∉ t.keys) : t.erase id = t := by
  refine List.filter_eq_self.mpr fun e he => ?_
  have hne : e.1 ≠ id := fun hid => h (hid ▸ List.mem_map_of_mem he)
  simpa using hne

end FileTable

theorem FileId.pairwise_sort {ids : List FileId} (h : ids.Nodup) :
    (FileId.sort ids).Pairwise (· < ·) := by
  have hle : (FileId.sort ids).Pairwise fun a b => decide (a.index ≤ b.index) = true :=
    List.pairwise_mergeSort (by simp only [decide_eq_true_eq]; omega)
      (by simp only [Bool.or_eq_true, decide_eq_true_eq]; omega) ids
  have hne : (FileId.sort ids).Nodup := (List.mergeSort_perm ids _).nodup_iff.mpr h
  refine hle.imp₂ (fun a b hab hne => ?_) hne
  exact Nat.lt_of_le_of_ne (of_decide_eq_true hab) fun he => hne (congrArg FileId.mk he)

namespace FileRegistry

variable {r : FileRegistry}

theorem get?_eq_some {name : String} {id : FileId} (h : r.get? name = some id) :
    r.name? id = some name := by
  obtain ⟨i, hi, rfl⟩ := Option.map_eq_some_iff.mp h
  obtain ⟨hlt, hname, _⟩ := List.idxOf?_eq_some_iff.mp hi
  exact (List.getElem?_eq_getElem hlt).trans (congrArg some hname)

theorem get?_of_name? (h : r.names.Nodup) {name : String} {id : FileId}
    (hn : r.name? id = some name) :
    r.get? name = some id := by
  obtain ⟨i⟩ := id
  obtain ⟨hlt, hname⟩ := List.getElem?_eq_some_iff.mp hn
  refine Option.map_eq_some_iff.mpr ⟨i, List.idxOf?_eq_some_iff.mpr ⟨hlt, hname, ?_⟩, rfl⟩
  intro j hj he
  exact Nat.ne_of_lt hj ((List.Nodup.getElem_inj_iff h).mp (he.trans hname.symm))

theorem get?_eq_none {name : String} : r.get? name = none ↔ name ∉ r.names := by
  simp [get?]

theorem mem_names_of_name? {name : String} {id : FileId} (h : r.name? id = some name) :
    name ∈ r.names :=
  List.mem_of_getElem? h

theorem lt_of_name? {name : String} {id : FileId} (h : r.name? id = some name) :
    id.index < r.names.length :=
  (List.getElem?_eq_some_iff.mp h).1

theorem intern_of_not_mem {name : String} (h : name ∉ r.names) :
    r.intern name = (⟨r.names ++ [name]⟩, ⟨r.names.length⟩) := by
  unfold intern
  rw [get?_eq_none.mpr h]

theorem name?_inj (h : r.names.Nodup) {name : String} {i j : FileId} (hi : r.name? i = some name)
    (hj : r.name? j = some name) : i = j := by
  have := get?_of_name? h hi
  rw [get?_of_name? h hj] at this
  exact (Option.some.inj this).symm

theorem nodup_intern (h : r.names.Nodup) (name : String) : (r.intern name).1.names.Nodup := by
  unfold intern
  split
  · exact h
  next hnone =>
    have hnot : name ∉ r.names := get?_eq_none.mp hnone
    exact List.nodup_append.mpr ⟨h, List.nodup_singleton _, by
      intro a ha b hb
      rw [List.mem_singleton.mp hb]
      rintro rfl
      exact hnot ha⟩

theorem name?_intern (r : FileRegistry) (name : String) :
    (r.intern name).1.name? (r.intern name).2 = some name := by
  unfold intern
  split
  next hid => exact get?_eq_some hid
  · simp [name?]

theorem name?_intern_of_name? {id : FileId} {name : String} (h : r.name? id = some name)
    (new : String) :
    (r.intern new).1.name? id = some name := by
  unfold intern
  split
  · exact h
  · obtain ⟨hlt, hname⟩ := List.getElem?_eq_some_iff.mp h
    exact (List.getElem?_append_left hlt).trans h

end FileRegistry

end EntityModel
