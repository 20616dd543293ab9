import EntityModel.Proofs.Linking.AliasRuns

/-!
# The rounds over aliases come to an end

`openCount given m` is the number of open aliases of a model outside the places `given` up.  No move
raises it (`Run.openCount_le`), and every round lowers it (`openCount_aliasRound`): if an alias of
the round is given up, it does not count any more; if none is, every alias that was to be pointed
somewhere was, and every choice is gone.  So the fuel of `resolveAliases` is never used up, and what
is open at the end has been given up (`mem_failed_of_open`).
-/

namespace EntityModel.Linking

variable {rules : NamingRules}

/-! ### Counting -/

section

variable {α β : Type} {P : β → Bool} {Q : α → Bool} {f : α → List β}

theorem countP_flatMap_le (l : List α) (h : ∀ a ∈ l, (f a).countP P ≤ if Q a then 1 else 0) :
    (l.flatMap f).countP P ≤ l.countP Q := by
  induction l with
  | nil => simp
  | cons a l ih =>
    rw [List.flatMap_cons, List.countP_append, List.countP_cons]
    have ha := h a List.mem_cons_self
    have := ih fun b hb => h b (List.mem_cons_of_mem _ hb)
    omega

theorem countP_flatMap_lt (l : List α) (h : ∀ a ∈ l, (f a).countP P ≤ if Q a then 1 else 0) {a : α}
    (ha : a ∈ l) (hQ : Q a = true) (hP : (f a).countP P = 0) :
    (l.flatMap f).countP P < l.countP Q := by
  obtain ⟨l₁, l₂, rfl⟩ := List.append_of_mem ha
  have h₁ := countP_flatMap_le l₁ fun b hb => h b (List.mem_append_left _ hb)
  have h₂ := countP_flatMap_le l₂ fun b hb => h b (by simp [hb])
  simp only [List.flatMap_append, List.flatMap_cons, List.countP_append, List.countP_cons, hQ, hP]
  simp
  omega

end

def countsAsOpen (given : List Location) (p : Property) : Bool :=
  isOpenAlias p && !given.contains p.location

/-- How many aliases are open, those at the places `given` up apart. -/
def openCount (given : List Location) (m : Model) : Nat := m.properties.countP (countsAsOpen given)

theorem countsAsOpen_content {given : List Location} {p q : Property} (h : p.content = q.content) :
    countsAsOpen given p = countsAsOpen given q := by
  obtain ⟨hl, hk⟩ := Prod.mk.inj h
  simp [countsAsOpen, isOpenAlias, Property.alias?, hl, hk]

/-- What looks at the contents alone counts the same in lists of the same contents. -/
theorem countP_content {P : Property → Bool}
    (hP : ∀ p q : Property, p.content = q.content → P p = P q)
    {ps qs : List Property} (h : ps.map Property.content = qs.map Property.content) :
    ps.countP P = qs.countP P := by
  induction ps generalizing qs with
  | nil => rw [List.map_nil, eq_comm, List.map_eq_nil_iff] at h; rw [h]
  | cons p ps ih =>
    cases qs with
    | nil => simp at h
    | cons q qs =>
      rw [List.map_cons, List.map_cons] at h
      obtain ⟨hpq, hrest⟩ := List.cons.inj h
      rw [List.countP_cons, List.countP_cons, ih hrest, hP p q hpq]

/-! ### What the moves do to the count -/

variable {m : Model} {given : List Location}

theorem openCount_associationRound (given : List Location) (m : Model) :
    openCount given (associationRound m rules true) = openCount given m := by
  unfold openCount associationRound
  rw [Model.properties_mapProperties, List.countP_map]
  refine List.countP_congr fun p _ => ?_
  have hloc := (resolving_associationRound m rules true).location p
  simp only [Function.comp_apply, countsAsOpen, isOpenAlias, alias?_withAssociationTarget, hloc]

theorem countsAsOpen_pointing {id t : PropertyId} {p : Property}
    (h : countsAsOpen given (pointing id t p) = true) : countsAsOpen given p = true := by
  unfold pointing at h
  split at h
  next a hk =>
    split at h
    · cases hp : a.property with
      | none => simpa [countsAsOpen, isOpenAlias, Property.alias?, hk, hp] using h
      | some r => simp [countsAsOpen, isOpenAlias, Property.alias?, hp, Reference.resolve] at h
    · exact h
  · exact h

theorem openCount_setAliasTarget_le (given : List Location) (m : Model) (id t : PropertyId) :
    openCount given (setAliasTarget m id t) ≤ openCount given m := by
  unfold openCount
  rw [setAliasTarget_eq, Model.properties_mapProperties, List.countP_map]
  exact List.countP_mono_left fun p _ h => countsAsOpen_pointing h

theorem openCount_setAliasTarget_lt {p : Property} {t : PropertyId} (hp : p ∈ m.properties)
    (hmay : MayPoint rules m p t) (hc : countsAsOpen given p = true) :
    openCount given (setAliasTarget m p.id t) < openCount given m := by
  unfold openCount
  rw [setAliasTarget_eq, Model.properties_mapProperties, List.map_eq_flatMap]
  refine countP_flatMap_lt _ (fun q _ => ?_) hp hc ?_
  · rw [List.countP_singleton]
    split
    next h => rw [if_pos (countsAsOpen_pointing h)]
    · exact Nat.zero_le _
  · obtain ⟨a, r, hk, hr, -, -⟩ := hmay
    rw [pointing_self hk hr]
    simp [countsAsOpen, isOpenAlias, Property.alias?, Reference.resolve]

variable {expansions : List (PropertyId × List PropertyKind)}

theorem Fits.countP_kinds (h : Fits m expansions) {p : Property} (hp : p ∈ m.properties)
    {kinds : List PropertyKind} (hl : expansions.lookup p.id = some kinds) :
    (spliced expansions p).countP (countsAsOpen given) = 0 := by
  rw [List.countP_eq_zero]
  intro q hq
  rw [spliced, hl, List.mem_map] at hq
  obtain ⟨k, hk, rfl⟩ := hq
  obtain ⟨a, _, _, _, _, _, hkinds⟩ := h.expands p hp kinds hl
  obtain ⟨t, name, rfl⟩ := hkinds k hk
  simp [countsAsOpen, isOpenAlias, Property.alias?, expandedAlias]

theorem Fits.countP_spliced_le (h : Fits m expansions) {p : Property} (hp : p ∈ m.properties) :
    (spliced expansions p).countP (countsAsOpen given) ≤ if countsAsOpen given p then 1 else 0 := by
  cases hl : expansions.lookup p.id with
  | none => simp [spliced, hl, List.countP_singleton]
  | some kinds => rw [h.countP_kinds hp hl]; exact Nat.zero_le _

theorem Fits.openCount_le (h : Fits m expansions) (hm : m.Numbered) :
    openCount given (applyExpansions m expansions) ≤ openCount given m := by
  unfold openCount
  rw [countP_content (fun _ _ => countsAsOpen_content) (h.content_properties hm)]
  exact countP_flatMap_le _ fun p hp => h.countP_spliced_le hp

theorem Fits.openCount_lt (h : Fits m expansions) (hm : m.Numbered) {p : Property}
    (hp : p ∈ m.properties) {kinds : List PropertyKind} (hl : expansions.lookup p.id = some kinds)
    (hc : countsAsOpen given p = true) :
    openCount given (applyExpansions m expansions) < openCount given m := by
  unfold openCount
  rw [countP_content (fun _ _ => countsAsOpen_content) (h.content_properties hm)]
  exact countP_flatMap_lt _ (fun p hp => h.countP_spliced_le hp) hp hc (h.countP_kinds hp hl)

theorem openCount_le_of_subset {given' : List Location} (h : given ⊆ given') (m : Model) :
    openCount given' m ≤ openCount given m := by
  refine List.countP_mono_left fun p _ hc => ?_
  simp only [countsAsOpen, Bool.and_eq_true, Bool.not_eq_true', List.contains_eq_mem,
    decide_eq_false_iff_not] at hc ⊢
  exact ⟨hc.1, fun hmem => hc.2 (h hmem)⟩

theorem openCount_lt_of_given {given' : List Location} (h : given ⊆ given') {p : Property}
    (hp : p ∈ m.properties) (hc : countsAsOpen given p = true) (hl : p.location ∈ given') :
    openCount given' m < openCount given m := by
  unfold openCount
  rw [← List.flatMap_singleton' m.properties]
  conv => rhs; rw [List.flatMap_singleton']
  refine countP_flatMap_lt _ (fun q _ => ?_) hp hc ?_
  · rw [List.countP_singleton]
    split
    next hq =>
      simp only [countsAsOpen, Bool.and_eq_true, Bool.not_eq_true', List.contains_eq_mem,
        decide_eq_false_iff_not] at hq
      rw [if_pos]
      simp only [countsAsOpen, Bool.and_eq_true, Bool.not_eq_true', List.contains_eq_mem,
        decide_eq_false_iff_not]
      exact ⟨hq.1, fun hmem => hq.2 (h hmem)⟩
    · exact Nat.zero_le _
  · simp [countsAsOpen, hl]

/-! ### Runs -/

theorem Move.openCount_le {s s' : AliasState} (h : Move rules s s') (hs : Sound rules true s.model)
    (given : List Location) : openCount given s'.model ≤ openCount given s.model := by
  cases h with
  | associate => exact (openCount_associationRound given s.model).le
  | report | giveUp => exact Nat.le_refl _
  | point => exact openCount_setAliasTarget_le given _ _ _
  | splice hf _ => exact hf.openCount_le hs.numbered

theorem Run.openCount_le {s s' : AliasState} (h : Run rules s s') (hs : Sound rules true s.model)
    (given : List Location) : openCount given s'.model ≤ openCount given s.model := by
  induction h with
  | refl => exact Nat.le_refl _
  | tail hrun hmove ih => exact (hmove.openCount_le (Run.sound hrun hs) given).trans ih

theorem Run.failed_subset {s s' : AliasState} (h : Run rules s s') : s.failed ⊆ s'.failed := by
  induction h with
  | refl => exact fun _ h => h
  | tail _ hmove ih =>
    cases hmove with
    | giveUp => exact fun _ h => List.mem_append_left _ (ih h)
    | _ => exact ih

theorem Run.problems_subset {s s' : AliasState} (h : Run rules s s') :
    s.problems ⊆ s'.problems := by
  induction h with
  | refl => exact fun _ h => h
  | tail _ hmove ih =>
    cases hmove with
    | report => exact fun _ h => List.mem_append_left _ (ih h)
    | _ => exact ih

/-! ### Rounds -/

theorem mem_failed_giveUps (test : Property × Step → Bool)
    (give : AliasState → Property → AliasState)
    (hgive : ∀ s p, (give s p).failed = s.failed ++ [p.location]) (steps : List (Property × Step)) :
    ∀ s : AliasState, ∀ ℓ,
    ℓ ∈ (steps.foldl (fun s x => if test x then give s x.1 else s) s).failed ↔
      ℓ ∈ s.failed ∨ ∃ x ∈ steps, test x = true ∧ x.1.location = ℓ := by
  induction steps with
  | nil => simp
  | cons x rest ih =>
    intro s ℓ
    rw [List.foldl_cons, ih]
    by_cases ht : test x = true
    · simp [ht, hgive]
      grind
    · simp [ht]

theorem mem_failed_afterFailures {s : AliasState} {pending : List Property} {x : Property × Step}
    (hx : x ∈ stepsOf rules s.model pending) (h : x.2.outcome = .failed) :
    x.1.location ∈ (afterFailures rules s pending).failed := by
  refine (mem_failed_giveUps (fun x => x.2.outcome == .failed) AliasState.giveUp (fun _ _ => rfl)
    _ _ _).mpr (Or.inr ⟨x, hx, by simp [h], rfl⟩)

theorem exists_lookup_expansionsOf {steps : List (Property × Step)} {x : Property × Step}
    {kinds : List PropertyKind} (hx : x ∈ steps) (h : x.2.outcome = .expand kinds) :
    ∃ kinds', (expansionsOf steps).lookup x.1.id = some kinds' := by
  rw [← Option.isSome_iff_exists, Option.isSome_iff_ne_none, Ne, List.lookup_eq_none_iff]
  intro hnone
  have := hnone (x.1.id, kinds) (List.mem_filterMap.mpr ⟨x, hx, by simp [h]⟩)
  simp at this

/-- Carrying out a step that makes progress lowers the count, unless the alias is given up. -/
theorem openCount_applySteps {s : AliasState} (hs : Sound rules true s.model)
    {steps : List (Property × Step)} (hsteps : ∀ x ∈ steps, Awaits rules s.model x)
    (hnodup : (steps.map (·.1.id)).Nodup) {x : Property × Step} (hx : x ∈ steps)
    (hprogress : isProgress x.2 = true) (hkept : x.1.location ∉ (applySteps s steps).failed) :
    openCount (applySteps s steps).failed (applySteps s steps).model
      < openCount (applySteps s steps).failed s.model := by
  obtain ⟨hrun, hwait, htried⟩ := run_resolved hs hsteps hnodup
  have hsound := Run.sound hrun hs
  have hfits := fits_of_waiting hsound.numbered hwait
  rw [applySteps_eq] at hkept ⊢
  simp only [] at hkept ⊢
  have hcounts : countsAsOpen (steps.foldl resolveStep s).failed x.1 = true := by
    simp [countsAsOpen, (hsteps x hx).opened, hkept]
  cases hout : x.2.outcome with
  | resolve t =>
    obtain ⟨s₁, hto, hawait, hfrom⟩ := htried x hx t hout
    have hs₁ := Run.sound hto hs
    have hgiven := Run.failed_subset hfrom
    refine (hfits.openCount_le hsound.numbered).trans_lt ?_
    have hlater := Run.openCount_le hfrom
      (Run.sound (run_applyResolution hawait.mem hawait.opened (hawait.resolve t hout)) hs₁)
      (steps.foldl resolveStep s).failed
    refine hlater.trans_lt (lt_of_lt_of_le ?_ (Run.openCount_le hto hs _))
    unfold applyResolution at hgiven ⊢
    split at hgiven
    · exact absurd (hgiven (List.mem_append_right _ (List.mem_singleton_self _))) hkept
    next hc =>
      rw [if_neg hc]
      exact openCount_setAliasTarget_lt hawait.mem (hawait.resolve t hout) hcounts
  | expand kinds =>
    obtain ⟨kinds', hl⟩ := exists_lookup_expansionsOf hx hout
    have hmem := (hwait x (mem_waiting.mpr ⟨hx, by simp [hout]⟩)).mem
    exact (hfits.openCount_lt hsound.numbered hmem hl hcounts).trans_le (Run.openCount_le hrun hs _)
  | _ => simp [isProgress, hout] at hprogress

theorem mem_failed_circular {s : AliasState} {steps : List (Property × Step)} {x : Property × Step}
    (hx : x ∈ steps) (h : x.2.outcome = .blocked) :
    x.1.location ∈ (steps.foldl
      (fun s x => if x.2.outcome == .blocked then s.giveUpCircular x.1 else s) s).failed :=
  (mem_failed_giveUps (fun x => x.2.outcome == .blocked) AliasState.giveUpCircular (fun _ _ => rfl)
    _ _ _).mpr (Or.inr ⟨x, hx, by simp [h], rfl⟩)

theorem mem_failed_circular_of_mem {s : AliasState} {steps : List (Property × Step)} {ℓ : Location}
    (h : ℓ ∈ s.failed) : ℓ ∈ (steps.foldl
      (fun s x => if x.2.outcome == .blocked then s.giveUpCircular x.1 else s) s).failed :=
  (mem_failed_giveUps (fun x => x.2.outcome == .blocked) AliasState.giveUpCircular (fun _ _ => rfl)
    _ _ _).mpr (Or.inl h)

/-- **Every round leaves fewer aliases pending.** -/
theorem openCount_aliasRound (rules : NamingRules) {s : AliasState} (hs : Sound rules true s.model)
    (hpend : pendingAliases s ≠ []) :
    openCount (aliasRound rules s (pendingAliases s)).failed
      (aliasRound rules s (pendingAliases s)).model
      < openCount s.failed s.model := by
  have hp : ∀ p ∈ pendingAliases s, p ∈ s.model.properties :=
    fun p hp => (mem_pendingAliases.mp hp).1
  have ho : ∀ p ∈ pendingAliases s, isOpenAlias p = true :=
    fun p hp => (mem_pendingAliases.mp hp).2.1
  have hnodup := nodup_pendingAliases (s := s) hs.numbered
  have hrun := run_aliasRound rules hs hp ho hnodup
  have hsub := Run.failed_subset hrun
  -- if one of the pending aliases is given up, that alone lowers the count
  by_cases hgiven : ∃ p ∈ pendingAliases s,
    p.location ∈ (aliasRound rules s (pendingAliases s)).failed
  · obtain ⟨p, hmem, hl⟩ := hgiven
    obtain ⟨hmodel, hopen, hnot⟩ := mem_pendingAliases.mp hmem
    exact (Run.openCount_le hrun hs _).trans_lt
      (openCount_lt_of_given hsub hmodel (by simp [countsAsOpen, hopen, hnot]) hl)
  have hkept : ∀ x ∈ stepsOf rules s.model (pendingAliases s),
      x.1.location ∉ (aliasRound rules s (pendingAliases s)).failed := by
    intro x hx hl
    obtain ⟨p, hp, rfl⟩ := List.mem_map.mp hx
    exact hgiven ⟨p, hp, hl⟩
  refine lt_of_lt_of_le ?_ (openCount_le_of_subset hsub s.model)
  obtain ⟨hstart, hmodel⟩ := run_afterFailures rules hp ho
  rw [aliasRound_eq] at hkept ⊢
  split at hkept
  next hprogress =>
    rw [if_pos hprogress]
    obtain ⟨x, hx, hprogress⟩ := List.any_eq_true.mp hprogress
    have hawait : ∀ x ∈ stepsOf rules s.model (pendingAliases s),
        Awaits rules (afterFailures rules s (pendingAliases s)).model x := by
      rw [hmodel]
      exact awaits_stepsOf rules hp ho
    have hlt := openCount_applySteps (Run.sound hstart hs) hawait
      (by simpa [stepsOf, Function.comp_def] using hnodup) hx hprogress (hkept x hx)
    rwa [hmodel] at hlt
  next hnone =>
    -- without progress every pending alias is given up, as failed or as part of a cycle
    exfalso
    obtain ⟨p, hp⟩ := List.exists_mem_of_ne_nil _ hpend
    have hx : (p, propertyStep s.model rules p) ∈ stepsOf rules s.model (pendingAliases s) :=
      List.mem_map_of_mem hp
    refine hkept _ hx ?_
    cases hout : (propertyStep s.model rules p).outcome with
    | failed => exact mem_failed_circular_of_mem (mem_failed_afterFailures hx hout)
    | blocked => exact mem_failed_circular hx hout
    | _ => exact absurd (List.any_eq_true.mpr ⟨_, hx, by simp [isProgress, hout]⟩) hnone

theorem openCount_resolveAssociations (given : List Location) (m : Model) :
    openCount given (resolveAssociations rules true m) = openCount given m := by
  suffices h : ∀ fuel (m : Model),
    openCount given (associationRounds rules true fuel m) = openCount given m from h _ m
  intro fuel
  induction fuel with
  | zero => exact fun _ => rfl
  | succ fuel ih =>
    intro m
    unfold associationRounds
    split
    · rw [ih, openCount_associationRound]
    · rfl

theorem pendingAliases_aliasRounds (fuel : Nat) : ∀ s : AliasState, Sound rules true s.model →
    openCount s.failed s.model < fuel → pendingAliases (aliasRounds rules fuel s) = [] := by
  induction fuel with
  | zero => exact fun s _ h => absurd h (Nat.not_lt_zero _)
  | succ fuel ih =>
    intro s hs hlt
    unfold aliasRounds
    simp only []
    split
    next hnil => exact hnil
    next hne =>
      have hs' : Sound rules true ({ s with model := resolveAssociations rules true s.model } :
        AliasState).model := hs.resolveAssociations
      have hround := openCount_aliasRound rules hs' hne
      rw [openCount_resolveAssociations] at hround
      have hrun := run_aliasRound rules hs' (fun p hp => (mem_pendingAliases.mp hp).1)
        (fun p hp => (mem_pendingAliases.mp hp).2.1) (nodup_pendingAliases hs'.numbered)
      refine ih _ (Run.sound hrun hs') ?_
      exact hround.trans_le (Nat.le_of_lt_succ hlt)

/-- **What is open in the end has been given up.** -/
theorem mem_failed_of_open {m : Model} (h : Sound rules true m) {p : Property}
    (hp : p ∈ (resolveAliases rules m).model.properties) (ho : isOpenAlias p = true) :
    p.location ∈ (resolveAliases rules m).failed := by
  have hnil : pendingAliases (resolveAliases rules m) = [] := by
    refine pendingAliases_aliasRounds _ _ h ?_
    have hall : countsAsOpen [] = isOpenAlias := by
      funext p
      simp [countsAsOpen]
    exact Nat.lt_succ_of_le (by rw [openCount, hall])
  by_contra hnot
  have := mem_pendingAliases.mpr ⟨hp, ho, hnot⟩
  rw [hnil] at this
  exact absurd this List.not_mem_nil

end EntityModel.Linking
