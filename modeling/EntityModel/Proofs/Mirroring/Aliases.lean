import EntityModel.Proofs.Linking.AliasOrigins
import EntityModel.Proofs.Linking.QuietRounds
import EntityModel.Proofs.Mirroring.Associations

/-!
# Aliases in mirrored models

What becomes of an alias in a round is found in the model at the start of the round, and so in a
mirrored model the same becomes of it (`propertyStep_relabel`).  The order of the files shows only
in the order in which aliases are pointed, and in a quiet round that makes no difference
(`mirrors_carryOut`).  So as long as no error is found the rounds over the aliases of mirrored
models keep step with each other (`mirrors_aliasRounds`).
-/

namespace EntityModel

/-- The diagnostic under other file ids; texts hold none. -/
def Diagnostic.relabel (ρ : Relabelling) (d : Diagnostic) : Diagnostic where
  problem := d.problem
  location := d.location.relabel ρ
  related := d.related.map fun (l, reason) => (l.relabel ρ, reason)

namespace Linking

variable {ρ : Relabelling} {m m' : Model} {rules : NamingRules}

def Outcome.relabel (ρ : Relabelling) : Outcome → Outcome
  | .resolve target => .resolve (target.relabel ρ)
  | .expand chosen => .expand (chosen.map (PropertyKind.relabel ρ))
  | .blocked => .blocked
  | .failed => .failed

def Step.relabel (ρ : Relabelling) (s : Step) : Step where
  outcome := s.outcome.relabel ρ
  problems := s.problems.map (Diagnostic.relabel ρ)

/-! ### The graph of aliases -/

theorem alias?_relabel (p : Property) :
    (p.relabel ρ).alias? = p.alias?.map (AliasProperty.relabel ρ) := by
  obtain ⟨id, l, k⟩ := p
  cases k <;> rfl

theorem isOpenAlias_relabel (hρ : ρ.Renames) (p : Property) :
    isOpenAlias (p.relabel ρ) = isOpenAlias p := by
  unfold isOpenAlias
  rw [alias?_relabel]
  cases p.alias? with
  | none => rfl
  | some a =>
    simp only [Option.map_some, Option.any_some, AliasProperty.relabel_property]
    cases a.property with
    | none => rfl
    | some r => simp only [Option.map_some, Option.bind_some, hρ.target, Option.isNone_map]

theorem resolvedTo_relabel (hρ : ρ.Renames) (p : Property) :
    resolvedTo (p.relabel ρ) = (resolvedTo p).map (PropertyId.relabel ρ) := by
  unfold resolvedTo
  rw [alias?_relabel]
  cases p.alias? with
  | none => rfl
  | some a =>
    simp only [Option.map_some, Option.bind_some, AliasProperty.relabel_property]
    cases a.property with
    | none => rfl
    | some r => exact hρ.target r

theorem aliasTarget_relabel (h : m.Mirrors ρ m') (id : PropertyId) :
    aliasTarget m' (id.relabel ρ) = (aliasTarget m id).map (PropertyId.relabel ρ) := by
  rw [aliasTarget_eq, aliasTarget_eq, h.property?]
  cases m.property? id with
  | none => rfl
  | some p => exact resolvedTo_relabel h.renames p

theorem chainReturns_relabel (h : m.Mirrors ρ m') (source : PropertyId) (fuel : Nat) :
    ∀ (seen : List PropertyId) (next : Option PropertyId),
      chainReturns m' (source.relabel ρ) fuel (seen.map (PropertyId.relabel ρ))
          (next.map (PropertyId.relabel ρ))
        = chainReturns m source fuel seen next := by
  have heq : ∀ a b : PropertyId, (a.relabel ρ == b.relabel ρ) = (a == b) := fun a b => by
    rw [Bool.eq_iff_iff, beq_iff_eq, beq_iff_eq, h.renames.propertyId_injective.eq_iff]
  induction fuel with
  | zero => intro seen next; cases next <;> rfl
  | succ fuel ih =>
    intro seen next
    cases next with
    | none => rfl
    | some id =>
      have hseen : (seen.map (PropertyId.relabel ρ)).contains (id.relabel ρ)
          = seen.contains id := by
        rw [Bool.eq_iff_iff, List.contains_iff_mem, List.contains_iff_mem,
          List.mem_map_of_injective h.renames.propertyId_injective]
      have hrest := ih (id :: seen) (aliasTarget m id)
      rw [List.map_cons, ← aliasTarget_relabel h] at hrest
      simp only [chainReturns, Option.map_some, heq, hseen, hrest]

theorem closesCycle_relabel (h : m.Mirrors ρ m') (source target : PropertyId) :
    closesCycle m' (source.relabel ρ) (target.relabel ρ) = closesCycle m source target := by
  have hlength : m'.properties.length = m.properties.length := by
    rw [h.properties.length_eq, List.length_map]
  unfold closesCycle
  rw [hlength]
  exact chainReturns_relabel h source _ [] (some target)

/-- A cycle of aliases in a mirrored model is a mirrored cycle. -/
theorem acyclic_of_mirrors (h : m.Mirrors ρ m') (hm' : m'.Numbered) (ha : Acyclic m) :
    Acyclic m' := by
  refine acyclic_of_simulation h.renames.propertyId_injective (fun hp => ?_) (fun hp => ?_) ha
  · -- what points somewhere is a mirrored property
    rw [Points, aliasTarget_eq, Option.bind_eq_some_iff] at hp
    obtain ⟨p', hp', hr⟩ := hp
    obtain ⟨p, -, rfl⟩ := List.mem_map.mp (h.properties.subset (Model.mem_of_property? hm' hp'))
    rw [resolvedTo_relabel h.renames] at hr
    obtain ⟨b, -, rfl⟩ := Option.map_eq_some_iff.mp hr
    exact ⟨b, rfl⟩
  · rw [Points, aliasTarget_relabel h] at hp
    obtain ⟨b, hb, rfl⟩ := Option.map_eq_some_iff.mp hp
    exact ⟨b, rfl, hb⟩

/-! ### Steps -/

theorem namedCandidates_relabel (h : m.Mirrors ρ m') (C : ClassId) :
    namedCandidates m' rules (C.relabel ρ)
      = (namedCandidates m rules C).map fun (id, name) => (id.relabel ρ, name) := by
  unfold namedCandidates
  rw [h.classProperties, List.map_map, List.map_map]
  refine List.map_congr_left fun p _ => ?_
  simp only [Function.comp, Property.relabel_id, h.propertyName?]

theorem findCandidate_relabel (candidates : List (PropertyId × Option String)) (name : String) :
    findCandidate (candidates.map fun (id, name) => (id.relabel ρ, name)) name
      = (findCandidate candidates name).map (PropertyId.relabel ρ) := by
  unfold findCandidate
  rw [List.find?_map, Option.map_map, Option.map_map]
  rfl

theorem className_relabel (h : m.Mirrors ρ m') (C : ClassId) :
    className m' (C.relabel ρ) = className m C := by
  unfold className
  rw [h.cls?, Option.map_map]
  rfl

theorem notFound_relabel (h : m.Mirrors ρ m') (C : ClassId) (name : Located String) :
    notFound m' (C.relabel ρ) (name.relabel ρ) = (notFound m C name).relabel ρ := by
  unfold notFound
  rw [className_relabel h]
  rfl

theorem chosenProperties_relabel (candidates : List (PropertyId × Option String)) (l : Location)
    (a : AliasProperty) :
    chosenProperties (candidates.map fun (id, name) => (id.relabel ρ, name))
    (l.relabel ρ) (a.relabel ρ)
      = (chosenProperties candidates l a).map fun (id, name) => (id.relabel ρ, name.relabel ρ) := by
  unfold chosenProperties
  simp only [AliasProperty.relabel_only, AliasProperty.relabel_exclude, List.isEmpty_map]
  split
  · rw [List.filterMap_map, List.map_filterMap]
    congr 1
    funext ⟨id, name⟩
    have hexclude : (a.exclude.map (Located.relabel ρ)).all (fun x => x.value != name.getD "")
        = a.exclude.all fun x => x.value != name.getD "" := by
      rw [List.all_map]
      rfl
    simp only [Function.comp, hexclude]
    split <;> rfl
  · rw [List.filterMap_map, List.map_filterMap]
    congr 1
    funext name
    simp only [Function.comp, Located.relabel_value, findCandidate_relabel, Option.map_map]
    rfl

theorem unknownChoices_relabel (candidates : List (PropertyId × Option String))
    (a : AliasProperty) :
    unknownChoices (candidates.map fun (id, name) => (id.relabel ρ, name)) (a.relabel ρ)
      = (unknownChoices candidates a).map (Located.relabel ρ) := by
  unfold unknownChoices
  simp only [AliasProperty.relabel_only, AliasProperty.relabel_exclude, List.isEmpty_map]
  have htest : (fun name : Located String => (findCandidate
      (candidates.map fun (id, name) => (id.relabel ρ, name)) name.value).isNone) ∘
        Located.relabel ρ
      = fun name => (findCandidate candidates name.value).isNone := by
    funext name
    simp only [Function.comp, Located.relabel_value, findCandidate_relabel, Option.isNone_map]
  split <;> rw [List.filter_map, htest]

theorem expandedAlias_relabel (hρ : ρ.Renames) (a : AliasProperty) (t : PropertyId)
    (name : Located String) :
    expandedAlias (a.relabel ρ) (t.relabel ρ) (name.relabel ρ)
      = (expandedAlias a t name).relabel ρ := by
  simp only [expandedAlias, PropertyKind.relabel, AliasProperty.relabel, Option.map_some,
    Reference.relabel, hρ.keep, if_true, List.map_nil]
  rfl

theorem aliasStep_relabel (h : m.Mirrors ρ m') (p : Property) (a : AliasProperty) (C : ClassId) :
    aliasStep m' rules (p.relabel ρ) (a.relabel ρ) (C.relabel ρ)
      = (aliasStep m rules p a C).relabel ρ := by
  have hall : (namedCandidates m' rules (C.relabel ρ)).all (fun (_, name) => name.isSome)
      = (namedCandidates m rules C).all fun (_, name) => name.isSome := by
    rw [namedCandidates_relabel h, List.all_map]
    rfl
  have hchosen : (chosenProperties (namedCandidates m' rules (C.relabel ρ)) (p.location.relabel ρ)
      (a.relabel ρ)).map (fun (id, name) => expandedAlias (a.relabel ρ) id name)
      = ((chosenProperties (namedCandidates m rules C) p.location a).map
          fun (id, name) => expandedAlias a id name).map (PropertyKind.relabel ρ) := by
    rw [namedCandidates_relabel h, chosenProperties_relabel, List.map_map, List.map_map]
    exact List.map_congr_left fun ⟨id, name⟩ _ => expandedAlias_relabel h.renames a id name
  have hunknown : (unknownChoices (namedCandidates m' rules (C.relabel ρ)) (a.relabel ρ)).map
      (notFound m' (C.relabel ρ))
      = ((unknownChoices (namedCandidates m rules C) a).map (notFound m C)).map
        (Diagnostic.relabel ρ) := by
    rw [namedCandidates_relabel h, unknownChoices_relabel, List.map_map, List.map_map]
    exact List.map_congr_left fun name _ => notFound_relabel h C name
  unfold aliasStep
  simp only [isSettled_relabel h, hall, hchosen, hunknown, Property.relabel_location,
    Property.relabel_id, AliasProperty.relabel_property, Property.owner, PropertyId.relabel_owner]
  split
  · rfl
  · cases a.property with
    | some r =>
      simp only [Option.map_some, text_relabel, namedCandidates_relabel h, findCandidate_relabel]
      cases findCandidate (namedCandidates m rules C) r.text with
      | some t =>
        simp only [Option.map_some, closesCycle_relabel h, className_relabel h]
        split <;> rfl
      | none =>
        simp only [Option.map_none]
        split
        · simp only [Step.relabel, Outcome.relabel, List.map_cons, List.map_nil,
            ← notFound_relabel h]
          rfl
        · rfl
    | none =>
      simp only [Option.map_none]
      split
      · rfl
      · cases p.id.owner with
        | returns e =>
          simp only [PropertyOwner.relabel, List.length_map]
          split
          · rfl
          · simp only [Step.relabel, Outcome.relabel, List.map_append]
            rfl
        | _ => rfl

/-- **In a mirrored model the same becomes of an alias.** -/
theorem propertyStep_relabel (h : m.Mirrors ρ m') (p : Property) :
    propertyStep m' rules (p.relabel ρ) = (propertyStep m rules p).relabel ρ := by
  unfold propertyStep
  rw [alias?_relabel]
  cases p.alias? with
  | none => rfl
  | some a =>
    simp only [Option.map_some, AliasProperty.relabel_cls, h.renames.target]
    cases a.cls.target with
    | none => rfl
    | some C => exact aliasStep_relabel h p a C

/-! ### Rounds -/

theorem pointing_relabel (hρ : ρ.Renames) (id t : PropertyId) (p : Property) :
    pointing (id.relabel ρ) (t.relabel ρ) (p.relabel ρ) = (pointing id t p).relabel ρ := by
  obtain ⟨pid, l, k⟩ := p
  cases k with
  | propertyAlias a =>
    have hid : (pid.relabel ρ == id.relabel ρ) = (pid == id) := by
      rw [Bool.eq_iff_iff, beq_iff_eq, beq_iff_eq, hρ.propertyId_injective.eq_iff]
    simp only [pointing, Property.relabel, PropertyKind.relabel, hid]
    split
    · simp only [AliasProperty.relabel, Option.map_map, Property.mk.injEq,
        PropertyKind.propertyAlias.injEq, AliasProperty.mk.injEq, true_and, and_true]
      congr 1
      funext r
      exact resolve_relabel hρ r t
    · rfl
  | _ => rfl

theorem pointing_comm {a b t u : PropertyId} (h : a = b → t = u) (p : Property) :
    pointing a t (pointing b u p) = pointing b u (pointing a t p) := by
  by_cases hab : a = b
  · rw [hab, h hab]
  · by_cases ha : p.id = a
    · have hb : p.id ≠ b := ha ▸ hab
      have hb' : (pointing a t p).id ≠ b := id_pointing a t p ▸ hb
      rw [pointing_of_ne hb, pointing_of_ne hb']
    · have ha' : (pointing b u p).id ≠ a := id_pointing b u p ▸ ha
      rw [pointing_of_ne ha, pointing_of_ne ha']

def relabelTarget (ρ : Relabelling) (x : PropertyId × PropertyId) : PropertyId × PropertyId :=
  (x.1.relabel ρ, x.2.relabel ρ)

theorem pointingAll_relabel (hρ : ρ.Renames) {targets targets' : List (PropertyId × PropertyId)}
    (ht : targets'.Perm (targets.map (relabelTarget ρ))) (hnodup : (targets.map Prod.fst).Nodup)
    (p : Property) : pointingAll targets' (p.relabel ρ) = (pointingAll targets p).relabel ρ := by
  have hcomm : ∀ x ∈ targets', ∀ y ∈ targets', ∀ p, pointing y.1 y.2 (pointing x.1 x.2 p)
      = pointing x.1 x.2 (pointing y.1 y.2 p) := by
    intro x hx y hy p
    refine pointing_comm (fun he => ?_) p
    obtain ⟨v, hv, rfl⟩ := List.mem_map.mp (ht.subset hx)
    obtain ⟨w, hw, rfl⟩ := List.mem_map.mp (ht.subset hy)
    rw [List.inj_on_of_nodup_map hnodup hw hv (hρ.propertyId_injective he)]
  unfold pointingAll
  rw [ht.foldl_eq' hcomm, List.foldl_map]
  clear hcomm ht hnodup
  induction targets generalizing p with
  | nil => rfl
  | cons x rest ih =>
    rw [List.foldl_cons, List.foldl_cons, ← ih]
    congr 1
    exact pointing_relabel hρ x.1 x.2 p

theorem mirrors_pointAll (h : m.Mirrors ρ m') {targets targets' : List (PropertyId × PropertyId)}
    (ht : targets'.Perm (targets.map (relabelTarget ρ))) (hnodup : (targets.map Prod.fst).Nodup) :
    (pointAll m targets).Mirrors ρ (pointAll m' targets') := by
  rw [pointAll_eq, pointAll_eq]
  exact h.mapProperties (pointingAll_relabel h.renames ht hnodup)

theorem renumber_relabel (o : PropertyOwner) (ps : List Property) :
    renumber (o.relabel ρ) (ps.map (Property.relabel ρ))
      = (renumber o ps).map (Property.relabel ρ) := by
  unfold renumber
  rw [List.zipIdx_map, List.map_map, List.map_map]
  rfl

theorem mirrors_applyExpansions (h : m.Mirrors ρ m')
    {expansions expansions' : List (PropertyId × List PropertyKind)}
    (he : expansions'.Perm
      (expansions.map fun x => (x.1.relabel ρ, x.2.map (PropertyKind.relabel ρ))))
    (hnodup : (expansions.map Prod.fst).Nodup) :
    (applyExpansions m expansions).Mirrors ρ (applyExpansions m' expansions') := by
  have hspliced : ∀ p : Property,
      spliced expansions' (p.relabel ρ) = (spliced expansions p).map (Property.relabel ρ) := by
    intro p
    unfold spliced
    rw [Property.relabel_id, lookup_perm h.renames.propertyId_injective he hnodup]
    cases expansions.lookup p.id with
    | none => rfl
    | some kinds =>
      simp only [Option.map_some, List.map_map]
      rfl
  rw [applyExpansions_eq_mapLists, applyExpansions_eq_mapLists]
  refine h.mapLists (fun o ps => ?_) fun p => ?_
  · rw [← renumber_relabel, List.flatMap_map, List.map_flatMap]
    congr 1
    exact List.flatMap_congr fun p _ => hspliced p
  · rw [hspliced]
    cases spliced expansions p <;> rfl

def relabelStep (ρ : Relabelling) (x : Property × Step) : Property × Step :=
  (x.1.relabel ρ, x.2.relabel ρ)

theorem perm_stepsOf (h : m.Mirrors ρ m') {pending pending' : List Property}
    (hp : pending'.Perm (pending.map (Property.relabel ρ))) :
    (stepsOf rules m' pending').Perm ((stepsOf rules m pending).map (relabelStep ρ)) := by
  refine (hp.map _).trans (.of_eq ?_)
  unfold stepsOf
  rw [List.map_map, List.map_map]
  exact List.map_congr_left fun p _ => congrArg (Prod.mk (p.relabel ρ)) (propertyStep_relabel h p)

theorem targetsOf_relabel (steps : List (Property × Step)) :
    targetsOf (steps.map (relabelStep ρ)) = (targetsOf steps).map (relabelTarget ρ) := by
  unfold targetsOf
  rw [List.filterMap_map, List.map_filterMap]
  congr 1
  funext ⟨p, step⟩
  cases ho : step.outcome <;> simp [relabelStep, Step.relabel, Outcome.relabel, ho, relabelTarget]

theorem expansionsOf_relabel (steps : List (Property × Step)) :
    expansionsOf (steps.map (relabelStep ρ))
      = (expansionsOf steps).map fun x => (x.1.relabel ρ, x.2.map (PropertyKind.relabel ρ)) := by
  unfold expansionsOf
  rw [List.filterMap_map, List.map_filterMap]
  congr 1
  funext ⟨p, step⟩
  cases ho : step.outcome <;> simp [relabelStep, Step.relabel, Outcome.relabel, ho]

theorem nodup_expansionsOf {steps : List (Property × Step)} (h : (steps.map (·.1.id)).Nodup) :
    ((expansionsOf steps).map Prod.fst).Nodup := by
  refine h.sublist ?_
  induction steps with
  | nil => exact .slnil
  | cons x rest ih =>
    rw [List.map_cons, List.nodup_cons] at h
    unfold expansionsOf at ih ⊢
    rw [List.filterMap_cons]
    cases ho : x.2.outcome with
    | expand kinds => simpa [ho] using (ih h.2).cons_cons x.1.id
    | _ => simpa [ho] using (ih h.2).cons x.1.id

/-- **Carrying out mirrored steps in mirrored models gives mirrored models**, whatever their
order. -/
theorem mirrors_carryOut (h : m.Mirrors ρ m') {steps steps' : List (Property × Step)}
    (hs : steps'.Perm (steps.map (relabelStep ρ))) (hnodup : (steps.map (·.1.id)).Nodup) :
    (carryOut m steps).Mirrors ρ (carryOut m' steps') := by
  refine mirrors_applyExpansions (mirrors_pointAll h ?_ (nodup_targetsOf hnodup)) ?_
    (nodup_expansionsOf hnodup)
  · rw [← targetsOf_relabel]
    exact hs.filterMap _
  · rw [← expansionsOf_relabel]
    exact hs.filterMap _

/-- **A quiet round is quiet in a mirrored model.** -/
theorem Quiet.mirrored (h : m.Mirrors ρ m') (hm' : m'.Numbered) {pending pending' : List Property}
    (hp : pending'.Perm (pending.map (Property.relabel ρ))) (hnodup : (pending.map (·.id)).Nodup)
    (hq : Quiet rules m pending) : Quiet rules m' pending' where
  problems p' hp' := by
    obtain ⟨p, hpend, rfl⟩ := List.mem_map.mp (hp.subset hp')
    rw [propertyStep_relabel h, Step.relabel, hq.problems p hpend, List.map_nil]
  outcome p' hp' := by
    obtain ⟨p, hpend, rfl⟩ := List.mem_map.mp (hp.subset hp')
    have hout := hq.outcome p hpend
    rw [propertyStep_relabel h, Step.relabel]
    cases ho : (propertyStep m rules p).outcome <;> simp_all [Outcome.relabel]
  progress := by
    obtain ⟨p, hpend, hprogress⟩ := hq.progress
    refine ⟨p.relabel ρ, hp.symm.subset (List.mem_map_of_mem hpend), ?_⟩
    rw [propertyStep_relabel h]
    unfold isProgress at hprogress ⊢
    rw [Step.relabel]
    cases ho : (propertyStep m rules p).outcome <;> simp_all [Outcome.relabel]
  acyclic := by
    have hids : ((stepsOf rules m pending).map (·.1.id)).Nodup := by
      simpa [stepsOf, Function.comp_def] using hnodup
    refine acyclic_of_mirrors (mirrors_pointAll h ?_ (nodup_targetsOf hids))
      (numbered_pointAll hm' _) hq.acyclic
    rw [← targetsOf_relabel]
    exact (perm_stepsOf h hp).filterMap _

def ReferencesKnown (m : Model) : Prop :=
  ∀ p ∈ m.properties, ∀ x ∈ propertyReferences p, x.isResolved = true

theorem Stems.referencesKnown {D : Model} (h : Stems D m) (hD : ReferencesKnown D) :
    ReferencesKnown m := by
  intro p hp x hx
  obtain ⟨d, hd, hstem⟩ := h p hp
  rw [hstem.references] at hx
  exact hD d hd x hx

theorem ReferencesKnown.cls (h : ReferencesKnown m) {p : Property} (hp : p ∈ m.properties)
    {a : AliasProperty} (hk : p.kind = .propertyAlias a) : a.cls.target ≠ none := by
  have hknown := h p hp (.cls a.cls) (by simp [propertyReferences, hk])
  simpa [EntityReference.isResolved, Option.isSome_iff_ne_none] using hknown

theorem pendingAliases_relabel (h : m.Mirrors ρ m') :
    (pendingAliases { model := m' }).Perm
      ((pendingAliases { model := m }).map (Property.relabel ρ)) := by
  refine (h.properties.filter _).trans (.of_eq ?_)
  rw [List.filter_map]
  congr 2
  funext p
  simp [isOpenAlias_relabel h.renames]

/-- **A quiet round over the aliases keeps mirrored models mirrored.** -/
theorem mirrors_aliasRound (h : m.Mirrors ρ m') (hs : Sound rules true m)
    (hs' : Sound rules true m')
    {pending pending' : List Property} (hp : OpenAliases m pending) (hp' : OpenAliases m' pending')
    (hperm : pending'.Perm (pending.map (Property.relabel ρ))) (hq : Quiet rules m pending) :
    ∃ n n', aliasRound rules { model := m } pending = { model := n } ∧
      aliasRound rules { model := m' } pending' = { model := n' } ∧
      n.Mirrors ρ n' ∧ Sound rules true n ∧ Sound rules true n' ∧ Stems m n := by
  have hround := aliasRound_of_quiet hs hp hq
  have hround' := aliasRound_of_quiet hs' hp' (hq.mirrored h hs'.numbered hperm hp.nodup)
  have hrun := run_aliasRound (s := { model := m }) rules hs hp.mem hp.opened hp.nodup
  have hrun' := run_aliasRound (s := { model := m' }) rules hs' hp'.mem hp'.opened hp'.nodup
  rw [hround] at hrun
  rw [hround'] at hrun'
  exact ⟨_, _, hround, hround', mirrors_carryOut h (perm_stepsOf h hperm) (hp.nodup_steps rules),
    Run.sound hrun hs, Run.sound hrun' hs', Run.stems hrun hs⟩

theorem aliasRounds_succ (fuel : Nat) (s : AliasState) :
    aliasRounds rules (fuel + 1) s
      = if pendingAliases { s with model := resolveAssociations rules true s.model } = [] then
          { s with model := resolveAssociations rules true s.model }
        else aliasRounds rules fuel (aliasRound rules
          { s with model := resolveAssociations rules true s.model }
          (pendingAliases { s with model := resolveAssociations rules true s.model })) := by
  rw [aliasRounds]
  split
  next h => rw [if_pos h]
  next h => rw [if_neg h]

/-- **As long as they report no error, the rounds over the aliases keep mirrored models mirrored**,
and report nothing in either. -/
theorem mirrors_aliasRounds (fuel : Nat) {m m' : Model} (h : m.Mirrors ρ m')
    (hs : Sound rules true m) (hs' : Sound rules true m') (hknown : ReferencesKnown m)
    (hnone : ∀ d ∈ (aliasRounds rules fuel { model := m }).problems, d.isError = false) :
    (aliasRounds rules fuel { model := m }).model.Mirrors ρ
      (aliasRounds rules fuel { model := m' }).model ∧
      (aliasRounds rules fuel { model := m }).problems = [] ∧
      (aliasRounds rules fuel { model := m' }).problems = [] := by
  induction fuel generalizing m m' with
  | zero => exact ⟨h, rfl, rfl⟩
  | succ fuel ih =>
    have ha : (resolveAssociations rules true m).Mirrors ρ (resolveAssociations rules true m') :=
      mirrors_resolveAssociations true h
    have hsa := hs.resolveAssociations
    have hsa' := hs'.resolveAssociations
    have hknown' : ReferencesKnown (resolveAssociations rules true m) :=
      (stems_associationRounds _ _ _ _).referencesKnown hknown
    rw [aliasRounds_succ] at hnone ⊢
    rw [aliasRounds_succ]
    generalize resolveAssociations rules true m = M at ha hsa hknown' hnone ⊢
    generalize resolveAssociations rules true m' = M' at ha hsa' ⊢
    have hperm := pendingAliases_relabel ha
    have hp := openAliases_pending (s := { model := M }) hsa.numbered
    have hp' := openAliases_pending (s := { model := M' }) hsa'.numbered
    generalize pendingAliases { model := M } = pending at hperm hp hnone ⊢
    generalize pendingAliases { model := M' } = pending' at hperm hp' ⊢
    by_cases hne : pending = []
    · have hne' : pending' = [] := by
        rw [hne, List.map_nil, List.perm_nil] at hperm
        exact hperm
      rw [if_pos hne, if_pos hne']
      exact ⟨ha, rfl, rfl⟩
    · have hne' : pending' ≠ [] := fun hnil => hne (by
        rw [hnil, List.nil_perm, List.map_eq_nil_iff] at hperm
        exact hperm)
      rw [if_neg hne] at hnone ⊢
      rw [if_neg hne']
      have hrun := run_aliasRound (s := { model := M }) rules hsa hp.mem hp.opened hp.nodup
      have hq := quiet_of_no_errors hsa hp hne (fun p hpend a hk => hknown'.cls (hp.mem p hpend) hk)
        fun d hd => hnone d (Run.problems_subset (run_aliasRounds fuel _ (Run.sound hrun hsa)) hd)
      obtain ⟨n, n', hround, hround', hn, hsn, hsn', hstems⟩ := mirrors_aliasRound ha hsa hsa'
        hp hp' hperm hq
      rw [hround] at hnone ⊢
      rw [hround']
      exact ih hn hsn hsn' (hstems.referencesKnown hknown') hnone

end Linking

end EntityModel
