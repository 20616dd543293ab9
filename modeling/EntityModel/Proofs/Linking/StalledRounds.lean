import EntityModel.Proofs.Linking.Fixpoints

/-!
# Where the rounds over aliases come to a stop

A class follows another if one of its properties is an association with it or an alias of it
(`Model.Follows`).  The rounds only ever take such steps away (`Run.follows`), so a model without a
cycle of them has none later either.  There the checks for cycles find nothing: a chain of aliases
goes from class to class along these steps (`closesCycle_of_untangled`).  So nothing is said about
cycles before the round in which nothing moves, and in that one only of the aliases that it finds
blocked (`exists_stallsAt`).
-/

namespace EntityModel

open Relation

/-- The class that an association or an alias is about. -/
def Property.follows? (p : Property) : Option ClassId :=
  match p.kind with
  | .association a => a.association.target
  | .propertyAlias a => a.cls.target
  | _ => none

/-- Among the properties of the class, those of its decorators included, is an association with the
other class, or an alias of it. -/
def Model.Follows (m : Model) (C D : ClassId) : Prop :=
  ∃ p ∈ m.classProperties C, p.follows? = some D

/-- No class comes back to itself by what its properties follow. -/
def Model.Untangled (m : Model) : Prop := ∀ C, ¬ TransGen m.Follows C C

theorem Model.Untangled.of_follows {m m' : Model} (h : m.Untangled)
    (hle : ∀ C D, m'.Follows C D → m.Follows C D) : m'.Untangled :=
  fun C hcycle => h C (TransGen.mono hle _ _ hcycle)

theorem follows?_of_resolves {p q : Property} (h : p.kind.Resolves q.kind) :
    q.follows? = p.follows? := by
  unfold Property.follows?
  generalize p.kind = k at h
  generalize q.kind = k' at h
  cases h <;> rfl

theorem Model.Resolving.follows {m : Model} {g : Property → Property} (hg : m.Resolving g)
    (hm : m.Numbered) {C D : ClassId} (h : (m.mapProperties g).Follows C D) : m.Follows C D := by
  obtain ⟨q, hq, hD⟩ := h
  rw [classProperties_mapProperties, List.mem_map] at hq
  obtain ⟨p, hp, rfl⟩ := hq
  exact ⟨p, hp, (follows?_of_resolves (hg.kind p (hm.mem_of_classProperties hp))).symm.trans hD⟩

namespace Linking

variable {rules : NamingRules} {m : Model}

/-- What is put in the place of a choice follows the class that the choice does. -/
theorem Fits.follows {expansions : List (PropertyId × List PropertyKind)} (h : Fits m expansions)
    (hm : m.Numbered) {C D : ClassId} (hfollows : (applyExpansions m expansions).Follows C D) :
    m.Follows C D := by
  obtain ⟨p', hp', hD⟩ := hfollows
  have hcontent := List.mem_map_of_mem (f := Property.content) hp'
  rw [content_classProperties, List.mem_map] at hcontent
  obtain ⟨q, hq, he⟩ := hcontent
  obtain ⟨p, hp, hq⟩ := List.mem_flatMap.mp hq
  have hkind : q.kind = p'.kind := congrArg Prod.snd he
  refine ⟨p, hp, ?_⟩
  rw [← hD]
  rcases h.mem_spliced (hm.mem_of_classProperties hp) hq with rfl |
    ⟨_, _, _, a, t, name, _, _, hk, _, hqk⟩
  · simp [Property.follows?, hkind]
  · simp [Property.follows?, ← hkind, hk, hqk, expandedAlias]

theorem Move.follows {s s' : AliasState} (h : Move rules s s') (hs : Sound rules true s.model)
    {C D : ClassId} (hfollows : s'.model.Follows C D) : s.model.Follows C D := by
  cases h with
  | associate => exact (resolving_associationRound _ _ _).follows hs.numbered hfollows
  | report | giveUp => exact hfollows
  | point hp hmay => exact (hmay.resolving hs.numbered hp).follows hs.numbered hfollows
  | splice hf => exact hf.follows hs.numbered hfollows

/-- **The rounds over aliases make no class follow another that it did not follow before.** -/
theorem Run.follows {s s' : AliasState} (h : Run rules s s') (hs : Sound rules true s.model)
    {C D : ClassId} (hfollows : s'.model.Follows C D) : s.model.Follows C D := by
  induction h with
  | refl => exact hfollows
  | tail hrun hmove ih => exact ih (hmove.follows (Run.sound hrun hs) hfollows)

theorem Run.untangled {s s' : AliasState} (h : Run rules s s') (hs : Sound rules true s.model)
    (hu : s.model.Untangled) : s'.model.Untangled := hu.of_follows fun _ _ => Run.follows h hs

/-! ### The checks for cycles -/

/-- What an alias of a class points to is a property of a class that it follows. -/
theorem follows_of_points {settled : Bool} (h : Sound rules settled m) {C : ClassId} {p : Property}
    (hp : p ∈ m.classProperties C) {b : PropertyId} (hb : Points m p.id b) :
    ∃ D, ∃ q ∈ m.classProperties D, q.id = b ∧ m.Follows C D := by
  have hmem := h.numbered.mem_of_classProperties hp
  rw [Points, aliasTarget_of_mem h.numbered hmem] at hb
  obtain ⟨a, r, hk, hr, ht⟩ := resolvedTo_eq_some.mp hb
  obtain ⟨D, hD, -, q, hq, hid, -⟩ :=
    h.grounded p hmem a.cls r (by simp [hk, PropertyKind.lookup?, hr]) b ht
  exact ⟨D, q, hq, hid, p, hp, by simp [Property.follows?, hk, hD]⟩

theorem follows_of_chain {settled : Bool} (h : Sound rules settled m) {C : ClassId} {p : Property}
    (hp : p ∈ m.classProperties C) {b : PropertyId} (hb : ReflTransGen (Points m) p.id b) :
    ∃ D, ∃ q ∈ m.classProperties D, q.id = b ∧ ReflTransGen m.Follows C D := by
  induction hb with
  | refl => exact ⟨C, p, hp, rfl, .refl⟩
  | tail _ hstep ih =>
    obtain ⟨D, q, hq, rfl, hD⟩ := ih
    obtain ⟨E, q', hq', hid, hE⟩ := follows_of_points h hq hstep
    exact ⟨E, q', hq', hid, hD.tail hE⟩

/-- **Where the classes make no cycle, no alias is found to close one.** -/
theorem closesCycle_of_untangled (h : Sound rules true m) (hu : m.Untangled) {p : Property}
    (hp : p ∈ m.properties) {t : PropertyId} (hmay : MayPoint rules m p t) :
    closesCycle m p.id t = false := by
  obtain ⟨a, r, hk, -, -, hground⟩ := hmay
  obtain ⟨C, hC, -, q, hq, rfl, -⟩ := hground t rfl
  refine closesCycle_eq_false_of_acyclic h.acyclic (fun _ _ => h.live_of_points)
    ⟨q, h.numbered.mem_of_classProperties hq, rfl⟩ fun hback => ?_
  -- the chain would come from the class that the alias follows to the class of the alias
  obtain ⟨D, p', hp', hid, hD⟩ := follows_of_chain h hq hback
  obtain rfl := h.numbered.property_inj (h.numbered.mem_of_classProperties hp') hp hid
  exact hu C (TransGen.tail' hD ⟨p', hp', by simp [Property.follows?, hk, hC]⟩)

/-- A step says that an alias is part of a cycle only if the check for cycles does. -/
theorem closesCycle_of_step {p : Property} (ho : isOpenAlias p = true) {d : Diagnostic}
    (hd : d ∈ (propertyStep m rules p).problems) (hk : d.kind = .circularAlias) :
    ∃ t, MayPoint rules m p t ∧ closesCycle m p.id t = true := by
  obtain ⟨a, hpk, hopen⟩ := isOpenAlias_iff.mp ho
  simp only [propertyStep, Property.alias?, hpk] at hd
  have hunknown : ∀ {C names}, d ∉ (List.map (notFound m C) names) := by
    intro C names hmem
    obtain ⟨name, -, rfl⟩ := List.mem_map.mp hmem
    exact absurd hk (by simp [notFound, Diagnostic.kind, Problem.kind])
  cases hC : a.cls.target with
  | none => simp [hC] at hd
  | some C =>
    simp only [hC, aliasStep] at hd
    split at hd
    · simp at hd
    next hs =>
      cases hr : a.property with
      | some r =>
        simp only [hr] at hd
        cases hf : findCandidate (namedCandidates m rules C) r.text with
        | some t =>
          simp only [hf] at hd
          split at hd
          next hcycle =>
            refine ⟨t, ⟨a, r, hpk, hr, by simpa [hr] using hopen, ?_⟩, hcycle⟩
            rintro _ ⟨⟩
            exact ⟨C, hC, fun _ => by simpa using hs, goesBy_of_findCandidate hf⟩
          · simp at hd
        | none =>
          simp only [hf] at hd
          split at hd
          · exact absurd (show d ∈ [r.name].map (notFound m C) from hd) hunknown
          · simp at hd
      | none =>
        simp only [hr] at hd
        split at hd
        · simp at hd
        · split at hd
          · split at hd
            · exact absurd hd hunknown
            · rcases List.mem_append.mp hd with hd | hd
              · exact absurd hd hunknown
              · rw [List.mem_singleton.mp hd] at hk
                exact absurd hk (by simp [Diagnostic.kind, Problem.kind])
          · exact absurd hd hunknown

/-- None of them is about a cycle of aliases. -/
def Plain (problems : List Diagnostic) : Prop := ∀ d ∈ problems, d.kind ≠ .circularAlias

theorem plain_of_step (h : Sound rules true m) (hu : m.Untangled) {p : Property}
    (hp : p ∈ m.properties)
    (ho : isOpenAlias p = true) : Plain (propertyStep m rules p).problems := by
  intro d hd hk
  obtain ⟨t, hmay, hcycle⟩ := closesCycle_of_step ho hd hk
  rw [closesCycle_of_untangled h hu hp hmay] at hcycle
  exact absurd hcycle (by simp)

/-- Where the classes make no cycle, pointing the aliases one by one reports nothing. -/
theorem problems_resolveSteps_of_untangled (steps : List (Property × Step)) :
    ∀ s : AliasState, Sound rules true s.model → s.model.Untangled →
      (∀ x ∈ steps, Awaits rules s.model x) → (steps.map (·.1.id)).Nodup →
      (steps.foldl resolveStep s).problems = s.problems := by
  induction steps with
  | nil => exact fun _ _ _ _ _ => rfl
  | cons x rest ih =>
    intro s hs hu hsteps hnodup
    rw [List.map_cons, List.nodup_cons] at hnodup
    rw [List.foldl_cons]
    have hx := hsteps x List.mem_cons_self
    have hrest : ∀ y ∈ rest, Awaits rules s.model y :=
      fun y hy => hsteps y (List.mem_cons_of_mem _ hy)
    cases ho : x.2.outcome with
    | resolve t =>
      have hmay := hx.resolve t ho
      have hcycle := closesCycle_of_untangled hs hu hx.mem hmay
      have hpointed : resolveStep s x = { s with model := setAliasTarget s.model x.1.id t } := by
        simp [resolveStep, ho, applyResolution, hcycle]
      have hmove : Run rules s { s with model := setAliasTarget s.model x.1.id t } :=
        .single (.point hx.mem hmay hcycle)
      rw [hpointed]
      refine ih _ (Run.sound hmove hs) (Run.untangled hmove hs hu) (fun y hy => ?_) hnodup.2
      exact (hrest y hy).setAliasTarget hs.numbered hx.mem hmay fun he =>
        hnodup.1 (he ▸ List.mem_map_of_mem hy)
    | _ =>
      have hsame : resolveStep s x = s := by simp [resolveStep, ho]
      rw [hsame]
      exact ih s hs hu hrest hnodup.2

/-! ### The last round -/

/-- The rounds come to a stop at `s`, where nothing moves, and `e` is what they leave behind. -/
structure StallsAt (rules : NamingRules) (s e : AliasState) : Prop where
  model : e.model = s.model
  still : ∀ p ∈ s.model.properties, associationTarget s.model rules true p = none
  plain : Plain s.problems
  stuck : ∀ p ∈ pendingAliases s, isProgress (propertyStep s.model rules p) = false
  kept : s.problems ⊆ e.problems
  found : ∀ p ∈ pendingAliases s, (propertyStep s.model rules p).problems ⊆ e.problems
  circular : ∀ d ∈ e.problems, d.kind = .circularAlias → ∃ p ∈ pendingAliases s,
    (propertyStep s.model rules p).outcome = .blocked ∧ d.location = p.location

/-- What giving up the blocked aliases of a round adds to the problems. -/
theorem mem_problems_circular (steps : List (Property × Step)) {d : Diagnostic} : ∀ s : AliasState,
    d ∈ (steps.foldl (fun s x => if x.2.outcome == .blocked then s.giveUpCircular x.1
      else s) s).problems ↔
      d ∈ s.problems ∨ ∃ x ∈ steps, x.2.outcome = .blocked ∧
        d = { problem := .circularAlias, location := x.1.location } := by
  induction steps with
  | nil => simp
  | cons x rest ih =>
    intro s
    rw [List.foldl_cons, ih]
    by_cases hb : x.2.outcome = .blocked
    · simp [hb, AliasState.giveUpCircular, AliasState.giveUp, AliasState.report, or_assoc]
    · simp [hb]

theorem model_circular (steps : List (Property × Step)) : ∀ s : AliasState,
    (steps.foldl (fun s x => if x.2.outcome == .blocked then s.giveUpCircular x.1 else s) s).model
      = s.model := by
  induction steps with
  | nil => exact fun _ => rfl
  | cons x rest ih =>
    intro s
    rw [List.foldl_cons, ih]
    split <;> rfl

/-- In a round in which nothing moves every pending alias fails or is blocked. -/
theorem failed_or_blocked {s : AliasState}
    (hstuck : ∀ p ∈ pendingAliases s, isProgress (propertyStep s.model rules p) = false)
    {p : Property} (hp : p ∈ pendingAliases s) :
    (propertyStep s.model rules p).outcome = .failed ∨
    (propertyStep s.model rules p).outcome = .blocked := by
  have hidle := hstuck p hp
  unfold isProgress at hidle
  cases ho : (propertyStep s.model rules p).outcome with
  | failed => exact Or.inl rfl
  | blocked => exact Or.inr rfl
  | resolve t => rw [ho] at hidle; exact absurd hidle (by simp)
  | expand kinds => rw [ho] at hidle; exact absurd hidle (by simp)

theorem aliasRound_of_stuck {s : AliasState}
    (hstuck : ∀ p ∈ pendingAliases s, isProgress (propertyStep s.model rules p) = false) :
    aliasRound rules s (pendingAliases s)
    = (stepsOf rules s.model (pendingAliases s)).foldl
      (fun s x => if x.2.outcome == .blocked then s.giveUpCircular x.1 else s)
      (afterFailures rules s (pendingAliases s)) := by
  rw [aliasRound_eq, if_neg]
  rw [Bool.not_eq_true, List.any_eq_false]
  intro x hx
  obtain ⟨p, hp, rfl⟩ := List.mem_map.mp hx
  simp [hstuck p hp]

theorem mem_problems_of_stuck {s : AliasState}
    (hstuck : ∀ p ∈ pendingAliases s, isProgress (propertyStep s.model rules p) = false)
    {d : Diagnostic} :
    d ∈ (aliasRound rules s (pendingAliases s)).problems ↔
      d ∈ s.problems ∨ (∃ p ∈ pendingAliases s, d ∈ (propertyStep s.model rules p).problems) ∨
        ∃ p ∈ pendingAliases s, (propertyStep s.model rules p).outcome = .blocked ∧
          d = { problem := .circularAlias, location := p.location } := by
  rw [aliasRound_of_stuck hstuck, mem_problems_circular, problems_afterFailures]
  simp [stepsOf, or_assoc]

theorem model_of_stuck {s : AliasState} (hs : Sound rules true s.model)
    (hstuck : ∀ p ∈ pendingAliases s, isProgress (propertyStep s.model rules p) = false) :
    (aliasRound rules s (pendingAliases s)).model = s.model := by
  have hpend := openAliases_pending (s := s) hs.numbered
  rw [aliasRound_of_stuck hstuck, model_circular]
  exact (run_afterFailures rules hpend.mem hpend.opened).2

theorem pendingAliases_of_stuck {s : AliasState} (hs : Sound rules true s.model)
    (hstuck : ∀ p ∈ pendingAliases s, isProgress (propertyStep s.model rules p) = false) :
    pendingAliases (aliasRound rules s (pendingAliases s)) = [] := by
  have hpend := openAliases_pending (s := s) hs.numbered
  have hsub := Run.failed_subset (run_aliasRound rules hs hpend.mem hpend.opened hpend.nodup)
  rw [List.eq_nil_iff_forall_not_mem]
  intro p hp
  obtain ⟨hmem, ho, hnot⟩ := mem_pendingAliases.mp hp
  rw [model_of_stuck hs hstuck] at hmem
  have hp' : p ∈ pendingAliases s := mem_pendingAliases.mpr ⟨hmem, ho, fun hℓ => hnot (hsub hℓ)⟩
  have hx : (p, propertyStep s.model rules p) ∈ stepsOf rules s.model (pendingAliases s) :=
    List.mem_map_of_mem hp'
  rw [aliasRound_of_stuck hstuck] at hnot
  rcases failed_or_blocked hstuck hp' with hf | hb
  · exact hnot (mem_failed_circular_of_mem (mem_failed_afterFailures hx hf))
  · exact hnot (mem_failed_circular hx hb)

/-- A round in which something moves says nothing about cycles where the classes make none. -/
theorem plain_aliasRound {s : AliasState} (hs : Sound rules true s.model) (hu : s.model.Untangled)
    (hplain : Plain s.problems)
    (hmoves : (stepsOf rules s.model (pendingAliases s)).any (fun x => isProgress x.2) = true) :
    Plain (aliasRound rules s (pendingAliases s)).problems := by
  have hpend := openAliases_pending (s := s) hs.numbered
  obtain ⟨hstart, hmodel⟩ := run_afterFailures rules hpend.mem hpend.opened
  rw [aliasRound_eq, if_pos hmoves, applySteps_eq]
  have hsteps : ∀ x ∈ stepsOf rules s.model (pendingAliases s),
      Awaits rules (afterFailures rules s (pendingAliases s)).model x := by
    rw [hmodel]
    exact awaits_stepsOf rules hpend.mem hpend.opened
  show Plain ((stepsOf rules s.model (pendingAliases s)).foldl resolveStep
    (afterFailures rules s (pendingAliases s))).problems
  rw [problems_resolveSteps_of_untangled _ _ (Run.sound hstart hs)
    (Run.untangled hstart hs hu) hsteps (hpend.nodup_steps rules), problems_afterFailures]
  intro d hd
  rcases List.mem_append.mp hd with hd | hd
  · exact hplain d hd
  · obtain ⟨x, hx, hd⟩ := List.mem_flatMap.mp hd
    obtain ⟨p, hp, rfl⟩ := List.mem_map.mp hx
    exact plain_of_step hs hu (hpend.mem p hp) (hpend.opened p hp) d hd

/-- **The rounds come to a stop in which nothing moves, and until then nothing is said about
cycles**, where the classes make none. -/
theorem exists_stallsAt (fuel : Nat) :
    ∀ s : AliasState, Sound rules true s.model → s.model.Untangled →
    Plain s.problems → openCount s.failed s.model < fuel →
      ∃ s', Run rules s s' ∧ StallsAt rules s' (aliasRounds rules fuel s) := by
  induction fuel with
  | zero => exact fun _ _ _ _ h => absurd h (Nat.not_lt_zero _)
  | succ fuel ih =>
    intro s hs hu hplain hcount
    generalize hnext : ({ s with model := resolveAssociations rules true s.model } : AliasState)
      = s'
    have hassoc : Run rules s s' := hnext ▸ run_associationRounds _ s
    have hs' := Run.sound hassoc hs
    have hu' := Run.untangled hassoc hs hu
    have hplain' : Plain s'.problems := hnext ▸ hplain
    have hstill : ∀ p ∈ s'.model.properties, associationTarget s'.model rules true p = none := by
      subst hnext
      exact fun p => associationTarget_resolveAssociations rules true s.model
    have hfixed : resolveAssociations rules true s'.model = s'.model := by
      subst hnext
      exact resolveAssociations_resolveAssociations rules true s.model
    have hcount' : openCount s'.failed s'.model < fuel + 1 := by
      subst hnext
      rwa [openCount_resolveAssociations]
    rw [aliasRounds_succ, hnext]
    by_cases hnil : pendingAliases s' = []
    · rw [if_pos hnil]
      refine ⟨s', hassoc, rfl, hstill, hplain', by simp [hnil], List.Subset.refl _, by
        simp [hnil], ?_⟩
      exact fun d hd hk => absurd hk (hplain' d hd)
    rw [if_neg hnil]
    have hpend := openAliases_pending (s := s') hs'.numbered
    have hround := run_aliasRound rules hs' hpend.mem hpend.opened hpend.nodup
    have hless := (openCount_aliasRound rules hs' hnil).trans_le (Nat.le_of_lt_succ hcount')
    by_cases hmoves : (stepsOf rules s'.model (pendingAliases s')).any (fun x => isProgress x.2)
      = true
    · obtain ⟨e, hrun, hstall⟩ := ih _ (Run.sound hround hs') (Run.untangled hround hs' hu')
        (plain_aliasRound hs' hu' hplain' hmoves) hless
      exact ⟨e, (hassoc.trans hround).trans hrun, hstall⟩
    -- nothing moves: everything pending is given up, and the rounds that are left change nothing
    have hstuck : ∀ p ∈ pendingAliases s', isProgress (propertyStep s'.model rules p) = false := by
      intro p hp
      rw [Bool.not_eq_true, List.any_eq_false] at hmoves
      simpa using hmoves _ (List.mem_map_of_mem hp)
    have hmodel := model_of_stuck hs' hstuck
    have hend : aliasRounds rules fuel (aliasRound rules s' (pendingAliases s'))
        = aliasRound rules s' (pendingAliases s') := by
      obtain ⟨fuel, rfl⟩ : ∃ n, fuel = n + 1 := ⟨fuel - 1, by omega⟩
      have hagain : ({ aliasRound rules s' (pendingAliases s') with
          model := resolveAssociations rules true
            (aliasRound rules s' (pendingAliases s')).model } :
            AliasState) = aliasRound rules s' (pendingAliases s') := by
        rw [hmodel, hfixed, ← hmodel]
      rw [aliasRounds_succ, hagain, if_pos (pendingAliases_of_stuck hs' hstuck)]
    rw [hend]
    refine ⟨s', hassoc, hmodel, hstill, hplain', hstuck, ?_, ?_, ?_⟩
    · exact fun d hd => (mem_problems_of_stuck hstuck).mpr (Or.inl hd)
    · exact fun p hp d hd => (mem_problems_of_stuck hstuck).mpr (Or.inr (Or.inl ⟨p, hp, hd⟩))
    · intro d hd hk
      rcases (mem_problems_of_stuck hstuck).mp hd with hd | ⟨p, hp, hd⟩ | ⟨p, hp, hblocked, rfl⟩
      · exact absurd hk (hplain' d hd)
      · exact absurd hk (plain_of_step hs' hu' (hpend.mem p hp) (hpend.opened p hp) d hd)
      · exact ⟨p, hp, hblocked, rfl⟩

end Linking

end EntityModel
