import EntityModel.Proofs.Linking.AliasProgress

/-!
# Rounds without errors

A round over aliases points them one by one, each checked against those before, so that what it does
may depend on their order.  Where nothing is found wrong it does not: the round then does at once
what was found for every alias on its own (`carryOut`).  `Quiet` says when, without a word about any
order: every alias is blocked or comes to something, some alias does, and pointing them all closes
no cycle.  A round that reports no error is quiet (`quiet_of_no_errors`), and a quiet round is
carried out (`aliasRound_of_quiet`).
-/

namespace EntityModel.Linking

open Relation

variable {rules : NamingRules} {m : Model}

theorem mapProperties_mapProperties (m : Model) (g g' : Property → Property) :
    (m.mapProperties g).mapProperties g' = m.mapProperties (g' ∘ g) := by
  simp [Model.mapProperties, Model.mapFiles, ModelFile.mapProperties, ModelFile.mapLists,
    Endpoint.mapParts, Function.comp_def]

/-! ### Pointing several aliases -/

def pointAll (m : Model) (targets : List (PropertyId × PropertyId)) : Model :=
  targets.foldl (fun m x => setAliasTarget m x.1 x.2) m

def pointingAll (targets : List (PropertyId × PropertyId)) (p : Property) : Property :=
  targets.foldl (fun p x => pointing x.1 x.2 p) p

theorem pointAll_eq (m : Model) (targets : List (PropertyId × PropertyId)) :
    pointAll m targets = m.mapProperties (pointingAll targets) := by
  induction targets generalizing m with
  | nil =>
    have hsame : (fun p : Property => p) = pointingAll [] := rfl
    rw [← hsame]
    simp [pointAll, Model.mapProperties, Model.mapFiles, ModelFile.mapProperties,
      ModelFile.mapLists, Endpoint.mapParts]
  | cons x rest ih =>
    show pointAll (setAliasTarget m x.1 x.2) rest = _
    rw [ih, setAliasTarget_eq, mapProperties_mapProperties]
    rfl

theorem id_pointing (id t : PropertyId) (p : Property) : (pointing id t p).id = p.id := by
  unfold pointing
  split
  · split <;> rfl
  · rfl

theorem id_pointingAll (targets : List (PropertyId × PropertyId)) (p : Property) :
    (pointingAll targets p).id = p.id := by
  induction targets generalizing p with
  | nil => rfl
  | cons x rest ih => exact (ih (pointing x.1 x.2 p)).trans (id_pointing x.1 x.2 p)

theorem numbered_pointAll (hm : m.Numbered) (targets : List (PropertyId × PropertyId)) :
    (pointAll m targets).Numbered := by
  rw [pointAll_eq]
  exact hm.mapProperties (id_pointingAll targets)

theorem pointingAll_of_ne {targets : List (PropertyId × PropertyId)} {p : Property}
    (h : ∀ x ∈ targets, p.id ≠ x.1) : pointingAll targets p = p := by
  induction targets with
  | nil => rfl
  | cons x rest ih =>
    show pointingAll rest (pointing x.1 x.2 p) = p
    rw [pointing_of_ne (h x List.mem_cons_self), ih fun y hy => h y (List.mem_cons_of_mem _ hy)]

theorem pointingAll_of_mem {targets : List (PropertyId × PropertyId)}
    (hnodup : (targets.map Prod.fst).Nodup) {p : Property} {t : PropertyId}
    (h : (p.id, t) ∈ targets) :
    pointingAll targets p = pointing p.id t p := by
  induction targets with
  | nil => exact absurd h List.not_mem_nil
  | cons x rest ih =>
    rw [List.map_cons, List.nodup_cons] at hnodup
    show pointingAll rest (pointing x.1 x.2 p) = pointing p.id t p
    rcases List.mem_cons.mp h with rfl | h
    · refine pointingAll_of_ne fun y hy he => hnodup.1 ?_
      rw [id_pointing] at he
      exact List.mem_map.mpr ⟨y, hy, he.symm⟩
    · have hne : p.id ≠ x.1 := fun he => hnodup.1 (he ▸ List.mem_map_of_mem (f := Prod.fst) h)
      rw [pointing_of_ne hne, ih hnodup.2 h]

/-- The aliases of the list are open, and may be pointed where it says. -/
def AllMayPoint (rules : NamingRules) (m : Model) (targets : List (PropertyId × PropertyId)) :
    Prop :=
  ∀ x ∈ targets, ∃ p ∈ m.properties, p.id = x.1 ∧ MayPoint rules m p x.2

/-- **Pointing aliases adds just their edges to the graph.** -/
theorem points_pointAll (hm : m.Numbered) {targets : List (PropertyId × PropertyId)}
    (hmay : AllMayPoint rules m targets) (hnodup : (targets.map Prod.fst).Nodup)
    {a b : PropertyId} :
    Points (pointAll m targets) a b
      ↔ ∃ p, m.property? a = some p ∧ (resolvedTo p = some b ∨ (p.id, b) ∈ targets) := by
  rw [Points, aliasTarget_eq, pointAll_eq, Model.property?_mapProperties, Option.bind_eq_some_iff]
  simp only [Option.map_eq_some_iff, exists_exists_and_eq_and]
  refine exists_congr fun p => and_congr_right fun hfound => ?_
  have hp := Model.mem_of_property? hm hfound
  by_cases hkey : ∃ t, (p.id, t) ∈ targets
  · obtain ⟨t, ht⟩ := hkey
    obtain ⟨q, hq, hid, c, r, hk, hr, ho, -⟩ := hmay _ ht
    obtain rfl := hm.property_inj hq hp hid
    have hopen : resolvedTo q = none := by simp [resolvedTo, Property.alias?, hk, hr, ho]
    have hpointed : ∀ u, (q.id, u) ∈ targets → resolvedTo (pointingAll targets q) = some u := by
      intro u hu
      rw [pointingAll_of_mem hnodup hu, pointing_self hk hr]
      simp [resolvedTo, Property.alias?, Reference.resolve]
    rw [hopen]
    constructor
    · intro hb
      rw [hpointed t ht] at hb
      exact Or.inr (Option.some.inj hb ▸ ht)
    · rintro (hb | hb)
      · exact absurd hb (by simp)
      · exact hpointed b hb
  · rw [pointingAll_of_ne fun x hx he => hkey ⟨x.2, he ▸ hx⟩]
    exact ⟨Or.inl, fun h => h.resolve_right fun hb => hkey ⟨b, hb⟩⟩

/-! ### The check for cycles -/

/-- The check finds nothing where the chain from the target never ends at the alias, since it comes
to an end before the fuel does. -/
theorem chainReturns_eq_false_of_walk (ha : Acyclic m)
    (hlive : ∀ a b, Points m a b → ∃ q ∈ m.properties, q.id = b) {source t : PropertyId}
    (hback : ¬ ReflTransGen (Points m) t source) (fuel : Nat) :
    ∀ (seen : List PropertyId) (id : PropertyId), Walk m t id (seen.reverse ++ [id]) →
      m.properties.length < fuel + seen.length →
      chainReturns m source fuel seen (some id) = false := by
  induction fuel with
  | zero =>
    intro seen id hw hlen
    have := hw.length_le ha
    rw [List.length_append, List.length_reverse, List.length_singleton] at this
    omega
  | succ fuel ih =>
    intro seen id hw hlen
    have hnodup := ha.nodup hw.steps
    have hseen : id ∉ seen := fun hid => by
      rw [List.nodup_append] at hnodup
      exact hnodup.2.2 id (List.mem_reverse.mpr hid) id (List.mem_singleton_self id) rfl
    have hne : id ≠ source := by
      rintro rfl
      refine hback ?_
      refine hw.steps.induction (ReflTransGen (Points m) t) _ (fun _ _ hab ht => ht.tail hab)
        (fun hne => ?_) id (List.mem_of_getLast? hw.last)
      have hhead := hw.head
      rw [List.head?_eq_some_head hne] at hhead
      rw [Option.some.inj hhead]
    simp only [chainReturns, Bool.or_eq_false_iff, beq_eq_false_iff_ne]
    refine ⟨⟨hne, by simpa using hseen⟩, ?_⟩
    cases hnext : aliasTarget m id with
    | none => cases fuel <;> rfl
    | some u =>
      have hpoint : Points m id u := hnext
      refine ih (id :: seen) u ?_ (by rw [List.length_cons]; omega)
      rw [List.reverse_cons]
      exact hw.extend hpoint (hlive id u hpoint)

/-- **An alias passes the check if pointing it closes no cycle.** -/
theorem closesCycle_eq_false_of_acyclic (ha : Acyclic m)
    (hlive : ∀ a b, Points m a b → ∃ q ∈ m.properties, q.id = b) {source t : PropertyId}
    (ht : ∃ q ∈ m.properties, q.id = t) (hback : ¬ ReflTransGen (Points m) t source) :
    closesCycle m source t = false := by
  refine chainReturns_eq_false_of_walk ha hlive hback _ [] t
    ⟨rfl, List.isChain_singleton _, rfl, ?_⟩ (by simp)
  simpa using ht

/-! ### Carrying out a round -/

def targetsOf (steps : List (Property × Step)) : List (PropertyId × PropertyId) :=
  steps.filterMap fun (p, step) =>
    match step.outcome with
    | .resolve target => some (p.id, target)
    | _ => none

/-- All that was found in a round, done at once. -/
def carryOut (m : Model) (steps : List (Property × Step)) : Model :=
  applyExpansions (pointAll m (targetsOf steps)) (expansionsOf steps)

structure OpenAliases (m : Model) (pending : List Property) : Prop where
  mem : ∀ p ∈ pending, p ∈ m.properties
  opened : ∀ p ∈ pending, isOpenAlias p = true
  nodup : (pending.map (·.id)).Nodup

theorem openAliases_pending {s : AliasState} (hm : s.model.Numbered) :
    OpenAliases s.model (pendingAliases s) where
  mem _ hp := (mem_pendingAliases.mp hp).1
  opened _ hp := (mem_pendingAliases.mp hp).2.1
  nodup := nodup_pendingAliases hm

theorem OpenAliases.nodup_steps (rules : NamingRules) {pending : List Property}
    (h : OpenAliases m pending) :
    ((stepsOf rules m pending).map (·.1.id)).Nodup := by
  simpa [stepsOf, Function.comp_def] using h.nodup

/-- Nothing is found wrong in a round, something is found, and pointing the aliases makes no
cycle. -/
structure Quiet (rules : NamingRules) (m : Model) (pending : List Property) : Prop where
  problems : ∀ p ∈ pending, (propertyStep m rules p).problems = []
  outcome : ∀ p ∈ pending, (propertyStep m rules p).outcome ≠ .failed
  progress : ∃ p ∈ pending, isProgress (propertyStep m rules p) = true
  acyclic : Acyclic (pointAll m (targetsOf (stepsOf rules m pending)))

theorem targetsOf_append (l l' : List (Property × Step)) :
    targetsOf (l ++ l') = targetsOf l ++ targetsOf l' := List.filterMap_append

theorem mem_targetsOf {steps : List (Property × Step)} {x : PropertyId × PropertyId} :
    x ∈ targetsOf steps ↔ ∃ y ∈ steps, y.1.id = x.1 ∧ y.2.outcome = .resolve x.2 := by
  simp only [targetsOf, List.mem_filterMap]
  refine exists_congr fun y => and_congr_right fun _ => ?_
  obtain ⟨a, b⟩ := x
  cases y.2.outcome <;> simp [eq_comm]

theorem nodup_targetsOf {steps : List (Property × Step)} (h : (steps.map (·.1.id)).Nodup) :
    ((targetsOf steps).map Prod.fst).Nodup := by
  refine h.sublist ?_
  induction steps with
  | nil => exact .slnil
  | cons x rest ih =>
    rw [List.map_cons, List.nodup_cons] at h
    unfold targetsOf at ih ⊢
    rw [List.filterMap_cons]
    cases ho : x.2.outcome with
    | resolve t => simpa [ho] using (ih h.2).cons_cons x.1.id
    | _ => simpa [ho] using (ih h.2).cons x.1.id

theorem allMayPoint_targetsOf {steps : List (Property × Step)} (h : ∀ x ∈ steps, Awaits rules m x) :
    AllMayPoint rules m (targetsOf steps) := by
  intro x hx
  obtain ⟨y, hy, hid, ho⟩ := mem_targetsOf.mp hx
  exact ⟨y.1, (h y hy).mem, hid, (h y hy).resolve x.2 ho⟩

/-- The edges of a part of the aliases are among those of all. -/
theorem points_prefix (hm : m.Numbered) {targets more : List (PropertyId × PropertyId)}
    (hmay : AllMayPoint rules m (targets ++ more)) (hnodup : ((targets ++ more).map Prod.fst).Nodup)
    {a b : PropertyId} (hp : Points (pointAll m targets) a b) :
    Points (pointAll m (targets ++ more)) a b := by
  have hmay' : AllMayPoint rules m targets := fun x hx => hmay x (List.mem_append_left _ hx)
  have hnodup' : (targets.map Prod.fst).Nodup := by
    rw [List.map_append, List.nodup_append] at hnodup
    exact hnodup.1
  rw [points_pointAll hm hmay' hnodup'] at hp
  rw [points_pointAll hm hmay hnodup]
  obtain ⟨p, hfound, hp⟩ := hp
  exact ⟨p, hfound, hp.imp_right (List.mem_append_left _)⟩

theorem live_of_pointAll (h : Sound rules true m) {targets : List (PropertyId × PropertyId)}
    (hmay : AllMayPoint rules m targets) (hnodup : (targets.map Prod.fst).Nodup) {a b : PropertyId}
    (hp : Points (pointAll m targets) a b) : ∃ q ∈ (pointAll m targets).properties, q.id = b := by
  suffices hlive : ∃ q ∈ m.properties, q.id = b by
    obtain ⟨q, hq, rfl⟩ := hlive
    rw [pointAll_eq, Model.properties_mapProperties]
    exact ⟨_, List.mem_map_of_mem hq, id_pointingAll targets q⟩
  rw [points_pointAll h.numbered hmay hnodup] at hp
  obtain ⟨p, hfound, hr | hb⟩ := hp
  · refine h.live_of_points (a := a) ?_
    rw [Points, aliasTarget_eq, hfound, Option.bind_some, hr]
  · obtain ⟨-, -, -, c, r, -, -, -, hground⟩ := hmay _ hb
    obtain ⟨C, -, -, q, hq, hid, -⟩ := hground b rfl
    exact ⟨q, h.numbered.mem_of_classProperties hq, hid⟩

/-- Where pointing all of the aliases makes no cycle, each of them passes the check in its turn. -/
theorem resolveSteps_of_acyclic (h : Sound rules true m) {steps : List (Property × Step)}
    (hsteps : ∀ x ∈ steps, Awaits rules m x) (hnodup : (steps.map (·.1.id)).Nodup)
    (hac : Acyclic (pointAll m (targetsOf steps))) (rest : List (Property × Step)) :
    ∀ before, steps = before ++ rest →
      rest.foldl resolveStep { model := pointAll m (targetsOf before) }
        = { model := pointAll m (targetsOf steps) } := by
  induction rest with
  | nil => intro before he; rw [he, List.append_nil]; rfl
  | cons x rest ih =>
    intro before he
    have hnext : steps = (before ++ [x]) ++ rest := by rw [he, List.append_assoc]; rfl
    rw [List.foldl_cons, ← ih (before ++ [x]) hnext]
    congr 1
    rw [targetsOf_append]
    unfold resolveStep
    split
    next t ho =>
      have hx : (x.1.id, t) ∈ targetsOf steps :=
        mem_targetsOf.mpr ⟨x, by rw [he]; exact List.mem_append_right _ List.mem_cons_self, rfl, ho⟩
      have hall : targetsOf steps = targetsOf before ++ targetsOf (x :: rest) := by
        rw [he, targetsOf_append]
      have hmay := allMayPoint_targetsOf hsteps
      have hkeys := nodup_targetsOf hnodup
      rw [hall] at hmay hkeys hac hx
      have hmay' : AllMayPoint rules m (targetsOf before) :=
        fun y hy => hmay y (List.mem_append_left _ hy)
      have hkeys' : ((targetsOf before).map Prod.fst).Nodup := by
        rw [List.map_append, List.nodup_append] at hkeys
        exact hkeys.1
      have hedge : ∀ a b, Points (pointAll m (targetsOf before)) a b →
          Points (pointAll m (targetsOf before ++ targetsOf (x :: rest))) a b :=
        fun _ _ => points_prefix h.numbered hmay hkeys
      have hnew : Points (pointAll m (targetsOf before ++ targetsOf (x :: rest))) x.1.id t := by
        rw [points_pointAll h.numbered hmay hkeys]
        refine ⟨x.1, h.numbered.property?_of_mem (hsteps x ?_).mem, Or.inr hx⟩
        rw [he]
        exact List.mem_append_right _ List.mem_cons_self
      have hpass : closesCycle (pointAll m (targetsOf before)) x.1.id t = false := by
        refine closesCycle_eq_false_of_acyclic (fun a ha => hac a (TransGen.mono hedge _ _ ha))
          (fun _ _ => live_of_pointAll h hmay' hkeys') ?_ fun hback => ?_
        · obtain ⟨-, -, -, c, r, -, -, -, hground⟩ := hmay _ hx
          obtain ⟨C, -, -, q, hq, rfl, -⟩ := hground t rfl
          rw [pointAll_eq, Model.properties_mapProperties]
          exact ⟨_, List.mem_map_of_mem (h.numbered.mem_of_classProperties hq), id_pointingAll _ q⟩
        · exact hac _ (TransGen.head' hnew (ReflTransGen.mono hedge _ _ hback))
      have hone : targetsOf [x] = [(x.1.id, t)] := by simp [targetsOf, ho]
      unfold applyResolution
      rw [if_neg (by simp [hpass]), hone]
      simp only [pointAll, List.foldl_append, List.foldl_cons, List.foldl_nil]
    next ho =>
      have hnone : targetsOf [x] = [] := by
        cases hout : x.2.outcome with
        | resolve t => exact absurd hout (ho t)
        | _ => simp [targetsOf, hout]
      rw [hnone, List.append_nil]

theorem problems_afterFailures (s : AliasState) (pending : List Property) :
    (afterFailures rules s pending).problems
      = s.problems ++ (stepsOf rules s.model pending).flatMap (·.2.problems) := by
  have hkeep : ∀ (steps : List (Property × Step)) (s : AliasState), (steps.foldl
      (fun s x => if x.2.outcome == .failed then s.giveUp x.1 else s) s).problems = s.problems := by
    intro steps
    induction steps with
    | nil => exact fun _ => rfl
    | cons x rest ih =>
      intro s
      rw [List.foldl_cons, ih]
      split <;> rfl
  exact hkeep _ _

theorem afterFailures_of_quiet {pending : List Property} (h : Quiet rules m pending) :
    afterFailures rules { model := m } pending = { model := m } := by
  have hproblems : (stepsOf rules m pending).flatMap (·.2.problems) = [] := by
    rw [List.flatMap_eq_nil_iff]
    intro x hx
    obtain ⟨p, hp, rfl⟩ := List.mem_map.mp hx
    exact h.problems p hp
  have hnone : ∀ (steps : List (Property × Step)) (s : AliasState),
      (∀ x ∈ steps, x.2.outcome ≠ .failed) →
      steps.foldl (fun s x => if x.2.outcome == .failed then s.giveUp x.1 else s) s = s := by
    intro steps
    induction steps with
    | nil => exact fun _ _ => rfl
    | cons x rest ih =>
      intro s hs
      rw [List.foldl_cons, if_neg (by simpa using hs x List.mem_cons_self)]
      exact ih s fun y hy => hs y (List.mem_cons_of_mem _ hy)
  unfold afterFailures
  simp only [hproblems]
  refine hnone _ _ fun x hx => ?_
  obtain ⟨p, hp, rfl⟩ := List.mem_map.mp hx
  exact h.outcome p hp

/-- **A quiet round does all that it found at once.** -/
theorem aliasRound_of_quiet (h : Sound rules true m) {pending : List Property}
    (hp : OpenAliases m pending) (hq : Quiet rules m pending) :
    aliasRound rules { model := m } pending
      = { model := carryOut m (stepsOf rules m pending) } := by
  have hprogress : (stepsOf rules m pending).any (fun x => isProgress x.2) = true := by
    obtain ⟨p, hp, hprogress⟩ := hq.progress
    exact List.any_eq_true.mpr ⟨_, List.mem_map_of_mem hp, hprogress⟩
  have hresolved :=
    resolveSteps_of_acyclic h (awaits_stepsOf rules hp.mem hp.opened)
      (hp.nodup_steps rules) hq.acyclic
    _ [] rfl
  have hfold : (stepsOf rules m pending).foldl resolveStep { model := m }
      = { model := pointAll m (targetsOf (stepsOf rules m pending)) } := hresolved
  rw [aliasRound_eq, if_pos hprogress, afterFailures_of_quiet hq, applySteps_eq, hfold]
  rfl

/-! ### Rounds that report no error -/

theorem problems_resolveStep (s : AliasState) (x : Property × Step) :
    s.problems ⊆ (resolveStep s x).problems := by
  unfold resolveStep applyResolution
  split
  · split
    · exact List.subset_append_left _ _
    · exact List.Subset.refl _
  · exact List.Subset.refl _

theorem problems_resolveSteps (steps : List (Property × Step)) :
    ∀ s : AliasState, s.problems ⊆ (steps.foldl resolveStep s).problems := by
  induction steps with
  | nil => exact fun _ _ h => h
  | cons x rest ih => exact fun s _ h => ih _ (problems_resolveStep s x h)

/-- Where pointing the aliases one by one reports no error, all of them are pointed. -/
theorem resolveSteps_of_no_errors (steps : List (Property × Step)) :
    ∀ s : AliasState, (∀ d ∈ (steps.foldl resolveStep s).problems, d.isError = false) →
      steps.foldl resolveStep s = { s with model := pointAll s.model (targetsOf steps) } := by
  induction steps with
  | nil => exact fun _ _ => rfl
  | cons x rest ih =>
    intro s hnone
    rw [List.foldl_cons] at hnone ⊢
    have hstep : resolveStep s x = { s with model := pointAll s.model (targetsOf [x]) } := by
      unfold resolveStep
      split
      next t ho =>
        have hone : targetsOf [x] = [(x.1.id, t)] := by simp [targetsOf, ho]
        unfold applyResolution
        split
        next hcycle =>
          have hstate : resolveStep s x = s.giveUpCircular x.1 := by
            simp [resolveStep, ho, applyResolution, hcycle]
          have hreported : ({ problem := .circularAlias, location := x.1.location } : Diagnostic)
              ∈ (rest.foldl resolveStep (resolveStep s x)).problems := by
            refine problems_resolveSteps rest _ ?_
            rw [hstate]
            exact List.mem_append_right _ (List.mem_singleton_self _)
          exact absurd (hnone _ hreported) (by simp [Diagnostic.isError, Diagnostic.severity,
            Diagnostic.kind, Problem.kind, DiagnosticKind.severity])
        · rw [hone]
          rfl
      next ho =>
        have hempty : targetsOf [x] = [] := by
          cases hout : x.2.outcome with
          | resolve t => exact absurd hout (ho t)
          | _ => simp [targetsOf, hout]
        rw [hempty]
        rfl
    have hcons : targetsOf (x :: rest) = targetsOf [x] ++ targetsOf rest :=
      targetsOf_append [x] rest
    rw [ih _ hnone, hstep, hcons]
    simp only [pointAll, List.foldl_append]

theorem problems_circular (steps : List (Property × Step)) {x : Property × Step} (hx : x ∈ steps)
    (hb : x.2.outcome = .blocked) : ∀ s : AliasState, ∃ d ∈ (steps.foldl (fun s x =>
      if x.2.outcome == .blocked then s.giveUpCircular x.1 else s) s).problems,
          d.isError = true := by
  have hgrow : ∀ (steps : List (Property × Step)) (s : AliasState),
      s.problems ⊆ (steps.foldl (fun s x =>
      if x.2.outcome == .blocked then s.giveUpCircular x.1 else s) s).problems := by
    intro steps
    induction steps with
    | nil => exact fun _ _ h => h
    | cons y rest ih =>
      intro s d hd
      refine ih _ ?_
      show d ∈ (if y.2.outcome == .blocked then s.giveUpCircular y.1 else s).problems
      split
      · exact List.mem_append_left _ hd
      · exact hd
  obtain ⟨before, rest, rfl⟩ := List.append_of_mem hx
  intro s
  rw [List.foldl_append, List.foldl_cons, if_pos (by simp [hb])]
  exact ⟨{ problem := .circularAlias, location := x.1.location }, hgrow rest _
    (List.mem_append_right _ (List.mem_singleton_self _)), rfl⟩

/-- **A round that reports no error is quiet.** -/
theorem quiet_of_no_errors (h : Sound rules true m) {pending : List Property}
    (hp : OpenAliases m pending) (hne : pending ≠ [])
    (hclasses : ∀ p ∈ pending, ∀ a, p.kind = .propertyAlias a → a.cls.target ≠ none)
    (hnone : ∀ d ∈ (aliasRound rules { model := m } pending).problems, d.isError = false) :
    Quiet rules m pending := by
  have hids := hp.nodup_steps rules
  have hawait := awaits_stepsOf rules hp.mem hp.opened
  obtain ⟨hstart, hmodel⟩ := run_afterFailures (s := { model := m }) rules hp.mem hp.opened
  have hafter : Sound rules true (afterFailures rules { model := m } pending).model :=
    Run.sound hstart h
  have hsteps : ∀ x ∈ stepsOf rules m pending,
      Awaits rules (afterFailures rules { model := m } pending).model x := by rwa [hmodel]
  -- what is reported for the steps stays reported
  have hgrow : (afterFailures rules { model := m } pending).problems
      ⊆ (aliasRound rules { model := m } pending).problems := by
    rw [aliasRound_eq]
    split
    · exact Run.problems_subset (run_applySteps hafter hsteps hids)
    · exact Run.problems_subset (run_giveUpsCircular rules (fun x => x.2.outcome == .blocked) _ _
        fun x hx => ⟨(hsteps x hx).mem, (hsteps x hx).opened⟩)
  have hproblems : ∀ p ∈ pending, (propertyStep m rules p).problems = [] := by
    intro p hpend
    rw [List.eq_nil_iff_forall_not_mem]
    intro d hd
    have hstep : d ∈ (stepsOf rules m pending).flatMap (·.2.problems) :=
      List.mem_flatMap.mpr ⟨(p, propertyStep m rules p), List.mem_map_of_mem hpend, hd⟩
    have hreported := hnone d (hgrow (problems_afterFailures _ _ ▸ List.mem_append_right _ hstep))
    rw [(reported_of_step hd).isError] at hreported
    exact absurd hreported (by simp)
  have houtcome : ∀ p ∈ pending, (propertyStep m rules p).outcome ≠ .failed := by
    intro p hpend hfailed
    rcases excused_of_step (hp.opened p hpend) hfailed with ⟨a, hk, hC⟩ | ⟨d, hd, -⟩
    · exact hclasses p hpend a hk hC
    · rw [hproblems p hpend] at hd
      exact absurd hd List.not_mem_nil
  have hprogress : (stepsOf rules m pending).any (fun x => isProgress x.2) = true := by
    -- else every alias is blocked, and given up for a cycle
    by_contra hstuck
    obtain ⟨p, hpend⟩ := List.exists_mem_of_ne_nil pending hne
    have hmem : (p, propertyStep m rules p) ∈ stepsOf rules m pending := List.mem_map_of_mem hpend
    have hblocked : (propertyStep m rules p).outcome = .blocked := by
      have hidle : isProgress (propertyStep m rules p) = false := by
        rw [Bool.not_eq_true, List.any_eq_false] at hstuck
        simpa using hstuck _ hmem
      have hfailed := houtcome p hpend
      cases hout : (propertyStep m rules p).outcome with
      | blocked => rfl
      | failed => exact absurd hout hfailed
      | resolve t => simp [isProgress, hout] at hidle
      | expand kinds => simp [isProgress, hout] at hidle
    obtain ⟨d, hd, herror⟩ :=
      problems_circular _ hmem hblocked (afterFailures rules { model := m } pending)
    rw [aliasRound_eq, if_neg hstuck] at hnone
    rw [hnone d hd] at herror
    exact absurd herror (by simp)
  refine ⟨hproblems, houtcome, ?_, ?_⟩
  · obtain ⟨x, hx, hx'⟩ := List.any_eq_true.mp hprogress
    obtain ⟨p, hpend, rfl⟩ := List.mem_map.mp hx
    exact ⟨p, hpend, hx'⟩
  · rw [aliasRound_eq, if_pos hprogress, applySteps_eq] at hnone
    have hresolved := resolveSteps_of_no_errors (stepsOf rules m pending) _ hnone
    obtain ⟨hrun, -, -⟩ := run_resolved hafter hsteps hids
    have hsound := Run.sound hrun hafter
    rw [hresolved, hmodel] at hsound
    exact hsound.acyclic

end EntityModel.Linking
