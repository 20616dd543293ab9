import Mathlib.Data.List.Forall2

/-!
# Making one after the other

A list of things made one by one, where each may fail: all are made exactly if each is, and then
what comes out stands in the places of what went in.  So the two lists go together element by
element, and some facts about such lists are kept here too.
-/

namespace EntityModel

/-! ### Lists that go together -/

section Pairs

variable {α β γ : Type} {R : α → β → Prop}

theorem exists_of_forall₂ {as : List α} {bs : List β} (h : List.Forall₂ R as bs) :
    ∀ a ∈ as, ∃ b ∈ bs, R a b := by
  induction h with
  | nil => simp
  | cons hab _ ih =>
    intro x hx
    rcases List.mem_cons.mp hx with rfl | hx
    · exact ⟨_, List.mem_cons_self, hab⟩
    · obtain ⟨y, hy, hxy⟩ := ih x hx
      exact ⟨y, List.mem_cons_of_mem _ hy, hxy⟩

theorem forall₂_comp {S : β → γ → Prop} {T : α → γ → Prop}
    (hT : ∀ a b c, R a b → S b c → T a c) {as : List α}
    {bs : List β} {cs : List γ} (h : List.Forall₂ R as bs) (h' : List.Forall₂ S bs cs) :
    List.Forall₂ T as cs := by
  induction h generalizing cs with
  | nil =>
    cases h'
    exact .nil
  | cons hab _ ih =>
    cases h' with
    | cons hbc h' => exact .cons (hT _ _ _ hab hbc) (ih h')

/-- Where two lists go together, those in the second with a property go with some of the first. -/
theorem exists_sublist_filter {as : List α} {bs : List β} (h : List.Forall₂ R as bs)
    (P : β → Bool) :
    ∃ kept, kept.Sublist as ∧ List.Forall₂ (fun a b => R a b ∧ P b = true) kept (bs.filter P) := by
  induction h with
  | nil => exact ⟨[], .slnil, .nil⟩
  | @cons a b as bs hab _ ih =>
    obtain ⟨kept, hsub, hkept⟩ := ih
    rw [List.filter_cons]
    by_cases hb : P b = true
    · rw [if_pos hb]
      exact ⟨a :: kept, hsub.cons_cons a, .cons ⟨hab, hb⟩ hkept⟩
    · rw [if_neg hb]
      exact ⟨kept, hsub.cons a, hkept⟩

/-- What is taken from a list stands in the order of the places that it is taken from. -/
theorem exists_places_filterMap (f : α → Option β) (as : List α) :
    ∃ places : List Nat, places.Pairwise (· < ·) ∧
    (∀ i, i ∈ places ↔ ∃ a b, as[i]? = some a ∧ f a = some b) ∧
      List.Forall₂ (fun i b => ∃ a, as[i]? = some a ∧ f a = some b) places (as.filterMap f) := by
  induction as with
  | nil => exact ⟨[], .nil, by simp, .nil⟩
  | cons a as ih =>
    -- the places in the rest move on by one
    obtain ⟨places, hsorted, hmem, hplaces⟩ := ih
    have hlater : (places.map (· + 1)).Pairwise (· < ·) :=
      List.pairwise_map.mpr (hsorted.imp Nat.succ_lt_succ)
    have hrest : List.Forall₂ (fun i b => ∃ a', (a :: as)[i]? = some a' ∧ f a' = some b)
        (places.map (· + 1))
        (as.filterMap f) := List.forall₂_map_left_iff.mpr hplaces
    cases ha : f a with
    | none =>
      refine ⟨places.map (· + 1), hlater, fun i => ?_, by rwa [List.filterMap_cons_none ha]⟩
      cases i with
      | zero => simp [ha]
      | succ i => simpa using hmem i
    | some b =>
      refine ⟨0 :: places.map (· + 1), List.pairwise_cons.mpr ⟨by simp, hlater⟩, fun i => ?_, ?_⟩
      · cases i with
        | zero => simp [ha]
        | succ i => simpa using hmem i
      · rw [List.filterMap_cons_some ha]
        exact .cons ⟨a, rfl, ha⟩ hrest

theorem exists_places_filter (P : α → Bool) (as : List α) :
    ∃ places : List Nat, places.Pairwise (· < ·) ∧
    (∀ i, i ∈ places ↔ ∃ a, as[i]? = some a ∧ P a = true) ∧
      List.Forall₂ (fun i a => as[i]? = some a) places (as.filter P) := by
  obtain ⟨places, hsorted, hmem, hplaces⟩ := exists_places_filterMap (Option.guard P) as
  refine ⟨places, hsorted, fun i => ?_, ?_⟩
  · rw [hmem]
    simp [Option.guard_eq_some_iff]
  · rw [← List.filterMap_eq_filter]
    refine hplaces.imp fun i b ⟨a, ha, hb⟩ => ?_
    rw [ha, (Option.guard_eq_some_iff.mp hb).1]

end Pairs

/-! ### One after the other -/

variable {ε α β : Type} {f : α → Except ε β}

theorem exists_of_bind {x : Except ε α} {b : β} (h : (x >>= f) = .ok b) :
    ∃ a, x = .ok a ∧ f a = .ok b := by
  cases x with
  | error e => exact nomatch h
  | ok a => exact ⟨a, rfl, h⟩

theorem ok_of_mapError {δ : Type} {x : Except ε α} {g : ε → δ} {a : α} (h : x.mapError g = .ok a) :
    x = .ok a := by
  cases x with
  | error e => exact nomatch h
  | ok b => exact congrArg _ (Except.ok.inj h)

theorem eq_ok_of_toOption {x : Except ε α} {a : α} (h : x.toOption = some a) : x = .ok a := by
  cases x with
  | error e => exact nomatch h
  | ok b => exact congrArg _ (Option.some.inj h)

theorem mapM_eq_ok_iff {as : List α} :
    ∀ {bs : List β}, as.mapM f = .ok bs ↔ as.map f = bs.map .ok := by
  induction as with
  | nil =>
    intro bs
    rw [List.mapM_nil, List.map_nil, eq_comm (a := []), List.map_eq_nil_iff]
    exact ⟨fun h => (Except.ok.inj h).symm, fun h => h ▸ rfl⟩
  | cons a as ih =>
    intro bs
    rw [List.mapM_cons, List.map_cons]
    cases hb : f a with
    | error e => cases bs <;> simp [bind, Except.bind]
    | ok b =>
      cases hrest : as.mapM f with
      | error e =>
        cases bs with
        | nil => simp [bind, Except.bind]
        | cons b' bs =>
          have hne : as.map f ≠ bs.map .ok := fun he => by
            rw [ih.mpr he] at hrest
            exact absurd hrest (by simp)
          simp [bind, Except.bind, hne]
      | ok rest =>
        have hmap := ih.mp hrest
        rw [hmap]
        cases bs with
        | nil => simp [bind, Except.bind, pure, Except.pure]
        | cons b' bs =>
          simp [bind, Except.bind, pure, Except.pure, List.map_inj_right fun _ _ => Except.ok.inj]

theorem mapM_eq_ok_iff_forall₂ {as : List α} {bs : List β} :
    as.mapM f = .ok bs ↔ List.Forall₂ (fun a b => f a = .ok b) as bs := by
  rw [mapM_eq_ok_iff, ← List.forall₂_eq_eq_eq, List.forall₂_map_left_iff,
    List.forall₂_map_right_iff]

theorem mapM_cons_eq_ok {a : α} {as : List α} {bs : List β} : (a :: as).mapM f = .ok bs ↔
    ∃ b rest, f a = .ok b ∧ as.mapM f = .ok rest ∧ bs = b :: rest := by
  rw [mapM_eq_ok_iff, List.map_cons]
  cases bs with
  | nil => simp
  | cons b rest =>
    rw [List.map_cons, List.cons.injEq, ← mapM_eq_ok_iff]
    simp

theorem mem_of_mapM {as : List α} {bs : List β} (h : as.mapM f = .ok bs) {b : β} :
    b ∈ bs ↔ ∃ a ∈ as, f a = .ok b := by
  rw [← List.mem_map_of_injective (f := Except.ok (ε := ε)) fun _ _ => Except.ok.inj,
    ← mapM_eq_ok_iff.mp h, List.mem_map]

theorem exists_of_mapM {as : List α} {bs : List β} (h : as.mapM f = .ok bs) {a : α} (ha : a ∈ as) :
    ∃ b, f a = .ok b := by
  have hmem := List.mem_map_of_mem (f := f) ha
  rw [mapM_eq_ok_iff.mp h, List.mem_map] at hmem
  obtain ⟨b, -, he⟩ := hmem
  exact ⟨b, he.symm⟩

theorem exists_mapM {as : List α} (h : ∀ a ∈ as, ∃ b, f a = .ok b) : ∃ bs, as.mapM f = .ok bs := by
  induction as with
  | nil => exact ⟨[], rfl⟩
  | cons a as ih =>
    obtain ⟨b, hb⟩ := h a List.mem_cons_self
    obtain ⟨bs, hbs⟩ := ih fun a' ha' => h a' (List.mem_cons_of_mem _ ha')
    exact ⟨b :: bs, mapM_eq_ok_iff.mpr (by
      rw [List.map_cons, hb, mapM_eq_ok_iff.mp hbs, List.map_cons])⟩

end EntityModel
