import EntityModel.Proofs.Linking.AliasSteps
import EntityModel.Proofs.Source.Tables

/-!
# Runs of the alias rounds

Whatever the rounds over aliases do is made of five moves (`Move`): a round over associations, a
report, giving up an alias that is excused for staying open, pointing an alias that passes the check
for cycles, and putting choices in place.  `run_resolveAliases` says so of the whole fixpoint; what
every move keeps is then kept by all of it (`Run.sound`).
-/

namespace EntityModel.Linking

open Relation

variable {rules : NamingRules}

/-- Something is reported for an alias that stays open: its class is, or there is an error at the
alias or at the name of the property. -/
def Excused (problems : List Diagnostic) (p : Property) : Prop :=
  (∃ a, p.kind = .propertyAlias a ∧ a.cls.target = none) ∨
    ∃ d ∈ problems, d.isError = true ∧ (d.location = p.location ∨
      ∃ a r, p.kind = .propertyAlias a ∧ a.property = some r ∧ d.location = r.location)

theorem Excused.mono {problems problems' : List Diagnostic} {p : Property} (h : Excused problems p)
    (hsub : problems ⊆ problems') : Excused problems' p := by
  rcases h with h | ⟨d, hd, h⟩
  · exact Or.inl h
  · exact Or.inr ⟨d, hsub hd, h⟩

/-- An alias that fails in a round is excused by what the round reports. -/
theorem excused_of_step {m : Model} {p : Property} (ho : isOpenAlias p = true)
    (h : (propertyStep m rules p).outcome = .failed) :
    Excused (propertyStep m rules p).problems p := by
  obtain ⟨a, hk, -⟩ := isOpenAlias_iff.mp ho
  simp only [propertyStep, Property.alias?, hk] at h ⊢
  cases hC : a.cls.target with
  | none => exact Or.inl ⟨a, hk, hC⟩
  | some C =>
    right
    simp only [hC, aliasStep] at h ⊢
    split at h
    · simp at h
    next hs =>
      rw [if_neg hs]
      cases hp : a.property with
      | some r =>
        simp only [hp] at h ⊢
        cases hf : findCandidate (namedCandidates m rules C) r.text with
        | some t =>
          simp only [hf] at h ⊢
          split at h
          next hc => rw [if_pos hc]; exact ⟨_, List.mem_singleton_self _, rfl,
            Or.inr ⟨a, r, hk, hp, rfl⟩⟩
          · simp at h
        | none =>
          simp only [hf] at h ⊢
          split at h
          next hc => rw [if_pos hc]; exact ⟨_, List.mem_singleton_self _, rfl,
            Or.inr ⟨a, r, hk, hp, rfl⟩⟩
          · simp at h
      | none =>
        simp only [hp] at h ⊢
        split at h
        · simp at h
        next hall =>
          rw [if_neg hall]
          split at h
          next e he =>
            split at h
            · simp at h
            next hlen =>
              rw [if_neg hlen]
              exact ⟨_, List.mem_append_right _ (List.mem_singleton_self _), rfl, Or.inl rfl⟩
          · simp at h

/-- The places at which something may be reported about an alias: its own, and those of the names in
it. -/
def reportPlaces (p : Property) : List Location :=
  p.location :: p.alias?.toList.flatMap fun a =>
    a.property.toList.map (·.location) ++ (a.only ++ a.exclude).map (·.location)

/-- The diagnostic is of a kind, and at a place, that an alias may be reported with. -/
structure Reported (p : Property) (d : Diagnostic) : Prop where
  kind : d.kind = .propertyNotFound ∨ d.kind = .circularAlias
  place : d.location ∈ reportPlaces p

theorem Reported.isError {p : Property} {d : Diagnostic} (h : Reported p d) : d.isError = true := by
  unfold Diagnostic.isError Diagnostic.severity
  rcases h.kind with hk | hk <;> rw [hk] <;> rfl

/-- **What a round finds wrong with an alias stands in it.** -/
theorem reported_of_step {m : Model} {p : Property} {d : Diagnostic}
    (h : d ∈ (propertyStep m rules p).problems) : Reported p d := by
  unfold propertyStep at h
  cases ha : p.alias? with
  | none => simp [ha] at h
  | some a =>
    cases hC : a.cls.target with
    | none => simp [ha, hC] at h
    | some C =>
      have hplaces : reportPlaces p = p.location ::
          (a.property.toList.map (·.location) ++ (a.only ++ a.exclude).map (·.location)) := by
        simp [reportPlaces, ha]
      have hname : ∀ {r}, a.property = some r → r.location ∈ reportPlaces p := fun hr => by
        rw [hplaces, hr]
        exact List.mem_cons_of_mem _ List.mem_cons_self
      have hunknown : ∀ {d}, d ∈ (unknownChoices (namedCandidates m rules C) a).map (notFound m C) →
          Reported p d := fun hd => by
        obtain ⟨name, hname, rfl⟩ := List.mem_map.mp hd
        refine ⟨Or.inl rfl, hplaces ▸ List.mem_cons_of_mem _ (List.mem_append_right _ ?_)⟩
        refine List.mem_map_of_mem (List.mem_append.mpr ?_)
        have hmem := (List.mem_filter.mp hname).1
        split at hmem
        · exact Or.inr hmem
        · exact Or.inl hmem
      simp only [ha, hC, aliasStep] at h
      split at h
      · simp at h
      · split at h
        next r hr =>
          split at h
          · split at h
            · rw [List.mem_singleton.mp h]
              exact ⟨Or.inr rfl, hname hr⟩
            · simp at h
          · split at h
            · rw [List.mem_singleton.mp h]
              exact ⟨Or.inl rfl, hname hr⟩
            · simp at h
        · split at h
          · simp at h
          · split at h
            · split at h
              · exact hunknown h
              · rcases List.mem_append.mp h with h | h
                · exact hunknown h
                · rw [List.mem_singleton.mp h]
                  exact ⟨Or.inl rfl, hplaces ▸ List.mem_cons_self⟩
            · exact hunknown h

/-- One thing that a round does. -/
inductive Move (rules : NamingRules) : AliasState → AliasState → Prop
  | associate (s : AliasState) :
      Move rules s { s with model := associationRound s.model rules true }
  | report {s : AliasState} {problems : List Diagnostic} :
      (∀ d ∈ problems, ∃ p ∈ s.model.properties, isOpenAlias p = true ∧ Reported p d) →
      Move rules s (s.report problems)
  | giveUp {s : AliasState} {p : Property} : p ∈ s.model.properties → isOpenAlias p = true →
      Excused s.problems p → Move rules s (s.giveUp p)
  | point {s : AliasState} {p : Property} {t : PropertyId} : p ∈ s.model.properties →
      MayPoint rules s.model p t → closesCycle s.model p.id t = false →
      Move rules s { s with model := setAliasTarget s.model p.id t }
  | splice {s : AliasState} {expansions : List (PropertyId × List PropertyKind)} :
      Fits s.model expansions →
      (∀ p ∈ s.model.properties, ∀ kinds, expansions.lookup p.id = some kinds →
        ∀ k ∈ kinds, ∀ cls r, k.lookup? = some (cls, r) → Grounded rules true s.model cls r) →
      Move rules s { s with model := applyExpansions s.model expansions }

abbrev Run (rules : NamingRules) : AliasState → AliasState → Prop := ReflTransGen (Move rules)

theorem Move.sound {s s' : AliasState} (h : Move rules s s') (hs : Sound rules true s.model) :
    Sound rules true s'.model := by
  cases h with
  | associate => exact hs.associationRound
  | report | giveUp => exact hs
  | point hp hmay hcycle => exact hs.setAliasTarget hp hmay hcycle
  | splice hf hg => exact hs.applyExpansions hf hg

theorem Run.sound {s s' : AliasState} (h : Run rules s s') (hs : Sound rules true s.model) :
    Sound rules true s'.model := by
  induction h with
  | refl => exact hs
  | tail _ hmove ih => exact hmove.sound ih

/-! ### Carrying out the steps of a round -/

/-- Carries out the step of one alias if it is to point it somewhere. -/
def resolveStep (s : AliasState) (x : Property × Step) : AliasState :=
  match x.2.outcome with
  | .resolve target => applyResolution s x.1 target
  | _ => s

def expansionsOf (steps : List (Property × Step)) : List (PropertyId × List PropertyKind) :=
  steps.filterMap fun (p, step) =>
    match step.outcome with
    | .expand chosen => some (p.id, chosen)
    | _ => none

theorem applySteps_eq (s : AliasState) (steps : List (Property × Step)) :
    applySteps s steps
      = { steps.foldl resolveStep s with
          model := applyExpansions (steps.foldl resolveStep s).model (expansionsOf steps) } := rfl

/-- The alias is still there, and what was found for it is still true. -/
structure Awaits (rules : NamingRules) (m : Model) (x : Property × Step) : Prop where
  mem : x.1 ∈ m.properties
  opened : isOpenAlias x.1 = true
  resolve : ∀ t, x.2.outcome = .resolve t → MayPoint rules m x.1 t
  expand : ∀ kinds, x.2.outcome = .expand kinds → MayExpand rules m x.1 kinds

theorem MayExpand.setAliasTarget {m : Model} {p q : Property} {t : PropertyId}
    {kinds : List PropertyKind} (h : MayExpand rules m q kinds) (hm : m.Numbered)
    (hp : p ∈ m.properties) (hmay : MayPoint rules m p t) :
    MayExpand rules (setAliasTarget m p.id t) q kinds where
  expands := by
    have hg := hmay.resolving hm hp
    obtain ⟨a, C, hk, hnone, hC, hs, hkinds⟩ := h.expands
    refine ⟨a, C, hk, hnone, hC, ?_, fun k hk => ?_⟩
    · rw [setAliasTarget_eq, isSettled_mapProperties hg hm, hs]
    · obtain ⟨u, name, he, hname⟩ := hkinds k hk
      exact ⟨u, name, he, hname.mapProperties hg hm⟩
  returned := h.returned

theorem Awaits.setAliasTarget {m : Model} {x : Property × Step} {p : Property} {t : PropertyId}
    (h : Awaits rules m x) (hm : m.Numbered) (hp : p ∈ m.properties) (hmay : MayPoint rules m p t)
    (hne : x.1.id ≠ p.id) : Awaits rules (setAliasTarget m p.id t) x where
  mem := mem_setAliasTarget h.mem hne
  opened := h.opened
  resolve t' ht := by
    obtain ⟨a, r, hk, hr, ho, hg⟩ := h.resolve t' ht
    exact ⟨a, r, hk, hr, ho, hg.setAliasTarget hm hp hmay⟩
  expand kinds hk := (h.expand kinds hk).setAliasTarget hm hp hmay

theorem run_giveUpCircular (rules : NamingRules) {s : AliasState} {p : Property}
    (hp : p ∈ s.model.properties) (ho : isOpenAlias p = true) :
    Run rules s (s.giveUpCircular p) := by
  refine .tail (.single (.report fun d hd => ⟨p, hp, ho, ?_⟩)) (.giveUp hp ho (Or.inr ⟨_,
    List.mem_append_right _ (List.mem_singleton_self _), rfl, Or.inl rfl⟩))
  rw [List.mem_singleton.mp hd]
  exact ⟨Or.inr rfl, List.mem_cons_self⟩

theorem run_applyResolution {s : AliasState} {p : Property} {t : PropertyId}
    (hp : p ∈ s.model.properties) (ho : isOpenAlias p = true) (hmay : MayPoint rules s.model p t) :
    Run rules s (applyResolution s p t) := by
  unfold applyResolution
  split
  · exact run_giveUpCircular rules hp ho
  next hc => exact .single (.point hp hmay (by simpa using hc))

/-- The aliases that are to be pointed somewhere are tried one by one, each while what was found for
it is still true; the `others`, which are not among them, wait. -/
theorem run_resolveSteps (steps others : List (Property × Step)) :
    ∀ s : AliasState, Sound rules true s.model → (∀ x ∈ steps, Awaits rules s.model x) →
      (∀ y ∈ others, Awaits rules s.model y) → (steps.map (·.1.id)).Nodup →
      (∀ y ∈ others, ∀ x ∈ steps, ∀ t, x.2.outcome = .resolve t → y.1.id ≠ x.1.id) →
      Run rules s (steps.foldl resolveStep s) ∧
        (∀ y ∈ others, Awaits rules (steps.foldl resolveStep s).model y) ∧
        ∀ x ∈ steps, ∀ t, x.2.outcome = .resolve t → ∃ s₁, Run rules s s₁ ∧
        Awaits rules s₁.model x ∧
        Run rules (applyResolution s₁ x.1 t) (steps.foldl resolveStep s) := by
  induction steps with
  | nil => exact fun s _ _ hothers _ _ => ⟨.refl, hothers, by simp⟩
  | cons x rest ih =>
    intro s hs hsteps hothers hnodup hne
    rw [List.map_cons, List.nodup_cons] at hnodup
    have hx := hsteps x List.mem_cons_self
    -- the step of `x`, and what it leaves for those behind
    have hstep : Run rules s (resolveStep s x) ∧ ∀ y, Awaits rules s.model y →
        (∀ t, x.2.outcome = .resolve t → y.1.id ≠ x.1.id) →
        Awaits rules (resolveStep s x).model y := by
      unfold resolveStep
      split
      next t ht =>
        refine ⟨run_applyResolution hx.mem hx.opened (hx.resolve t ht), fun y hy hyx => ?_⟩
        unfold applyResolution
        split
        · exact hy
        · exact hy.setAliasTarget hs.numbered hx.mem (hx.resolve t ht) (hyx t ht)
      · exact ⟨.refl, fun y hy _ => hy⟩
    obtain ⟨hrun, hkeep⟩ := hstep
    obtain ⟨hrun', hothers', htried⟩ := ih (resolveStep s x) (hrun.sound hs)
      (fun y hy => hkeep y (hsteps y (List.mem_cons_of_mem _ hy)) fun _ _ he =>
        hnodup.1 (he ▸ List.mem_map_of_mem hy))
      (fun y hy => hkeep y (hothers y hy) (hne y hy x List.mem_cons_self))
      hnodup.2 (fun y hy z hz => hne y hy z (List.mem_cons_of_mem _ hz))
    refine ⟨hrun.trans hrun', hothers', fun y hy t ht => ?_⟩
    rcases List.mem_cons.mp hy with rfl | hy
    · refine ⟨s, .refl, hx, ?_⟩
      have he : resolveStep s y = applyResolution s y.1 t := by simp [resolveStep, ht]
      exact he ▸ hrun'
    · obtain ⟨s₁, hto, hwait, hfrom⟩ := htried y hy t ht
      exact ⟨s₁, hrun.trans hto, hwait, hfrom⟩

theorem mem_expansionsOf {steps : List (Property × Step)} {id : PropertyId}
    {kinds : List PropertyKind} (h : (expansionsOf steps).lookup id = some kinds) :
    ∃ x ∈ steps, x.1.id = id ∧ x.2.outcome = .expand kinds := by
  obtain ⟨⟨p, step⟩, hx, he⟩ := List.mem_filterMap.mp (mem_of_lookup h)
  refine ⟨(p, step), hx, ?_⟩
  cases ho : step.outcome <;> simp [ho] at he
  exact ⟨he.1, by rw [he.2]⟩

theorem mayExpand_of_expansionsOf {m : Model} (hm : m.Numbered) {steps : List (Property × Step)}
    (h : ∀ x ∈ steps, ∀ kinds, x.2.outcome = .expand kinds → Awaits rules m x) {p : Property}
    (hp : p ∈ m.properties) {kinds : List PropertyKind}
    (hl : (expansionsOf steps).lookup p.id = some kinds) : MayExpand rules m p kinds := by
  obtain ⟨x, hx, hid, hk⟩ := mem_expansionsOf hl
  have hy := h x hx kinds hk
  rw [← hm.property_inj hy.mem hp hid]
  exact hy.expand kinds hk

def waiting (steps : List (Property × Step)) : List (Property × Step) :=
  steps.filter fun x => match x.2.outcome with | .resolve _ => false | _ => true

theorem mem_waiting {steps : List (Property × Step)} {x : Property × Step} :
    x ∈ waiting steps ↔ x ∈ steps ∧ ∀ t, x.2.outcome ≠ .resolve t := by
  unfold waiting
  rw [List.mem_filter]
  cases x.2.outcome <;> simp

/-- What the steps of a round come to: the aliases are pointed by way of `run_resolveSteps`, then
all choices fit. -/
theorem run_resolved {s : AliasState} (hs : Sound rules true s.model)
    {steps : List (Property × Step)}
    (hsteps : ∀ x ∈ steps, Awaits rules s.model x) (hnodup : (steps.map (·.1.id)).Nodup) :
    Run rules s (steps.foldl resolveStep s) ∧
      (∀ x ∈ waiting steps, Awaits rules (steps.foldl resolveStep s).model x) ∧
      ∀ x ∈ steps, ∀ t, x.2.outcome = .resolve t → ∃ s₁, Run rules s s₁ ∧ Awaits rules s₁.model x ∧
        Run rules (applyResolution s₁ x.1 t) (steps.foldl resolveStep s) := by
  refine run_resolveSteps steps (waiting steps) s hs hsteps
    (fun y hy => hsteps y (mem_waiting.mp hy).1) hnodup fun y hy x hx t ht he => ?_
  obtain ⟨hys, hyo⟩ := mem_waiting.mp hy
  exact hyo t (List.inj_on_of_nodup_map hnodup hys hx he ▸ ht)

theorem mayExpand_of_waiting {m : Model} (hm : m.Numbered) {steps : List (Property × Step)}
    (h : ∀ x ∈ waiting steps, Awaits rules m x) {p : Property} (hp : p ∈ m.properties)
    {kinds : List PropertyKind} (hl : (expansionsOf steps).lookup p.id = some kinds) :
    MayExpand rules m p kinds :=
  mayExpand_of_expansionsOf hm (fun x hx kinds hk => h x (mem_waiting.mpr ⟨hx, by simp [hk]⟩)) hp hl

theorem fits_of_waiting {m : Model} (hm : m.Numbered) {steps : List (Property × Step)}
    (h : ∀ x ∈ waiting steps, Awaits rules m x) : Fits m (expansionsOf steps) where
  expands p hp kinds hl := by
    obtain ⟨a, C, hk, hnone, hC, hs, hkinds⟩ := (mayExpand_of_waiting hm h hp hl).expands
    refine ⟨a, C, hk, hnone, hC, hs, fun k hk => ?_⟩
    obtain ⟨t, name, he, _⟩ := hkinds k hk
    exact ⟨t, name, he⟩
  returned p hp kinds hl := (mayExpand_of_waiting hm h hp hl).returned

theorem run_applySteps {s : AliasState} (hs : Sound rules true s.model)
    {steps : List (Property × Step)} (hsteps : ∀ x ∈ steps, Awaits rules s.model x)
    (hnodup : (steps.map (·.1.id)).Nodup) : Run rules s (applySteps s steps) := by
  obtain ⟨hrun, hwait, -⟩ := run_resolved hs hsteps hnodup
  have hm := (hrun.sound hs).numbered
  rw [applySteps_eq]
  refine hrun.tail (.splice (fits_of_waiting hm hwait) ?_)
  intro p hp kinds hl k hk cls r hlook
  obtain ⟨a, C, _, _, hC, hs, hkinds⟩ := (mayExpand_of_waiting hm hwait hp hl).expands
  obtain ⟨t, name, rfl, hname⟩ := hkinds k hk
  obtain ⟨rfl, rfl⟩ : a.cls = cls ∧ { name, target := some t } = r := by
    simpa [PropertyKind.lookup?, expandedAlias] using hlook
  rintro _ ⟨⟩
  exact ⟨C, hC, fun _ => hs, hname⟩

/-! ### Rounds -/

/-- What is found for the pending aliases at the start of a round. -/
def stepsOf (rules : NamingRules) (m : Model) (pending : List Property) : List (Property × Step) :=
  pending.map fun p => (p, propertyStep m rules p)

theorem awaits_stepsOf (rules : NamingRules) {m : Model} {pending : List Property}
    (hp : ∀ p ∈ pending, p ∈ m.properties)
    (ho : ∀ p ∈ pending, isOpenAlias p = true) :
    ∀ x ∈ stepsOf rules m pending, Awaits rules m x := by
  intro x hx
  obtain ⟨p, hpend, rfl⟩ := List.mem_map.mp hx
  exact ⟨hp p hpend, ho p hpend, fun t => mayPoint_of_step (ho p hpend),
    fun kinds => mayExpand_of_step⟩

theorem run_giveUps (rules : NamingRules) (test : Property × Step → Bool)
    (steps : List (Property × Step)) :
    ∀ s : AliasState, (∀ x ∈ steps, x.1 ∈ s.model.properties ∧ isOpenAlias x.1 = true) →
      (∀ x ∈ steps, test x = true → Excused s.problems x.1) →
      Run rules s (steps.foldl (fun s x => if test x then s.giveUp x.1 else s) s) ∧
        (steps.foldl (fun s x => if test x then s.giveUp x.1 else s) s).model = s.model := by
  induction steps with
  | nil => exact fun s _ _ => ⟨.refl, rfl⟩
  | cons x rest ih =>
    intro s hlive hexc
    rw [List.foldl_cons]
    have hstep : Run rules s (if test x then s.giveUp x.1 else s) ∧
        (if test x then s.giveUp x.1 else s).model = s.model ∧
        (if test x then s.giveUp x.1 else s).problems = s.problems := by
      split
      next ht =>
        have hx := hlive x List.mem_cons_self
        exact ⟨.single (.giveUp hx.1 hx.2 (hexc x List.mem_cons_self ht)), rfl, rfl⟩
      · exact ⟨.refl, rfl, rfl⟩
    obtain ⟨hrun, hmodel, hproblems⟩ := hstep
    obtain ⟨hrun', hmodel'⟩ := ih _ (fun y hy => hmodel ▸ hlive y (List.mem_cons_of_mem _ hy))
      (fun y hy ht => hproblems ▸ hexc y (List.mem_cons_of_mem _ hy) ht)
    exact ⟨hrun.trans hrun', hmodel'.trans hmodel⟩

/-- Giving up those of a list that are taken for parts of a cycle. -/
theorem run_giveUpsCircular (rules : NamingRules) (test : Property × Step → Bool)
    (steps : List (Property × Step)) :
    ∀ s : AliasState, (∀ x ∈ steps, x.1 ∈ s.model.properties ∧ isOpenAlias x.1 = true) →
      Run rules s (steps.foldl (fun s x => if test x then s.giveUpCircular x.1 else s) s) := by
  induction steps with
  | nil => exact fun s _ => .refl
  | cons x rest ih =>
    intro s hlive
    rw [List.foldl_cons]
    have hstep : Run rules s (if test x then s.giveUpCircular x.1 else s) ∧
        (if test x then s.giveUpCircular x.1 else s).model = s.model := by
      split
      · have hx := hlive x List.mem_cons_self
        exact ⟨run_giveUpCircular rules hx.1 hx.2, rfl⟩
      · exact ⟨.refl, rfl⟩
    exact hstep.1.trans (ih _ fun y hy => hstep.2 ▸ hlive y (List.mem_cons_of_mem _ hy))

/-- The state once the problems of a round are reported and what failed in it is given up. -/
def afterFailures (rules : NamingRules) (s : AliasState) (pending : List Property) : AliasState :=
  let steps := stepsOf rules s.model pending
  steps.foldl (fun s x => if x.2.outcome == .failed then s.giveUp x.1 else s)
    (s.report (steps.flatMap (·.2.problems)))

theorem aliasRound_eq (s : AliasState) (pending : List Property) :
    aliasRound rules s pending
      = if (stepsOf rules s.model pending).any (fun x => isProgress x.2) then
          applySteps (afterFailures rules s pending) (stepsOf rules s.model pending)
        else (stepsOf rules s.model pending).foldl
          (fun s x => if x.2.outcome == .blocked then s.giveUpCircular x.1 else s)
          (afterFailures rules s pending) := rfl

theorem run_afterFailures (rules : NamingRules) {s : AliasState} {pending : List Property}
    (hp : ∀ p ∈ pending, p ∈ s.model.properties) (ho : ∀ p ∈ pending, isOpenAlias p = true) :
    Run rules s (afterFailures rules s pending) ∧
    (afterFailures rules s pending).model = s.model := by
  have hawait := awaits_stepsOf rules hp ho
  obtain ⟨hrun, hmodel⟩ := run_giveUps rules (fun x => x.2.outcome == .failed)
    (stepsOf rules s.model pending)
      (s.report ((stepsOf rules s.model pending).flatMap (·.2.problems)))
    (fun x hx => ⟨(hawait x hx).mem, (hawait x hx).opened⟩) (by
      intro x hx ht
      obtain ⟨p, hpend, rfl⟩ := List.mem_map.mp hx
      refine (excused_of_step (ho p hpend) (by simpa using ht)).mono fun d hd => ?_
      exact List.mem_append_right _ (List.mem_flatMap.mpr ⟨_, hx, hd⟩))
  refine ⟨.head (.report fun d hd => ?_) hrun, hmodel⟩
  obtain ⟨x, hx, hd⟩ := List.mem_flatMap.mp hd
  obtain ⟨p, hpend, rfl⟩ := List.mem_map.mp hx
  exact ⟨p, hp p hpend, ho p hpend, reported_of_step hd⟩

theorem run_aliasRound (rules : NamingRules) {s : AliasState} (hs : Sound rules true s.model)
    {pending : List Property}
    (hp : ∀ p ∈ pending, p ∈ s.model.properties) (ho : ∀ p ∈ pending, isOpenAlias p = true)
    (hnodup : (pending.map (·.id)).Nodup) : Run rules s (aliasRound rules s pending) := by
  have hawait := awaits_stepsOf rules hp ho
  obtain ⟨hstart, hmodel⟩ := run_afterFailures rules hp ho
  refine hstart.trans ?_
  rw [aliasRound_eq]
  split
  · refine run_applySteps (Run.sound hstart hs) (fun x hx => ?_) ?_
    · rw [hmodel]
      exact hawait x hx
    · simpa [stepsOf, Function.comp_def] using hnodup
  · refine run_giveUpsCircular rules (fun x => x.2.outcome == .blocked) _ _ fun x hx => ?_
    rw [hmodel]
    exact ⟨(hawait x hx).mem, (hawait x hx).opened⟩

theorem run_associationRounds (fuel : Nat) : ∀ s : AliasState,
    Run rules s { s with model := associationRounds rules true fuel s.model } := by
  induction fuel with
  | zero => exact fun s => .refl
  | succ fuel ih =>
    intro s
    unfold associationRounds
    split
    · exact .head (.associate s) (ih { s with model := associationRound s.model rules true })
    · exact .refl

theorem mem_pendingAliases {s : AliasState} {p : Property} :
    p ∈ pendingAliases s ↔ p ∈ s.model.properties ∧ isOpenAlias p = true ∧
    p.location ∉ s.failed := by
  simp [pendingAliases]

theorem nodup_pendingAliases {s : AliasState} (hm : s.model.Numbered) :
    ((pendingAliases s).map (·.id)).Nodup := hm.nodup_ids.sublist (List.filter_sublist.map _)

theorem run_aliasRounds (fuel : Nat) : ∀ s : AliasState, Sound rules true s.model →
    Run rules s (aliasRounds rules fuel s) := by
  induction fuel with
  | zero => exact fun s _ => .refl
  | succ fuel ih =>
    intro s hs
    have hassoc : Run rules s { s with model := resolveAssociations rules true s.model } :=
      run_associationRounds _ s
    unfold aliasRounds
    simp only []
    split
    · exact hassoc
    · have hs' := Run.sound hassoc hs
      have hround := run_aliasRound rules hs'
        (fun p hp => (mem_pendingAliases.mp hp).1) (fun p hp => (mem_pendingAliases.mp hp).2.1)
        (nodup_pendingAliases hs'.numbered)
      exact (hassoc.trans hround).trans (ih _ (Run.sound hround hs'))

/-- **Resolving the aliases of a model is a run of moves.** -/
theorem run_resolveAliases {m : Model} (h : Sound rules true m) :
    Run rules { model := m } (resolveAliases rules m) := run_aliasRounds _ _ h

end EntityModel.Linking
