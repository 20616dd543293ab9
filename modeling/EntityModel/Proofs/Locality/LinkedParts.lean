import EntityModel.Proofs.Linking.Fixpoints
import EntityModel.Proofs.Locality.NamedParts
import EntityModel.Proofs.Mirroring.Linked

/-!
# Linking a part

The rounds over associations and aliases look at the properties of the class that a property points
to, and at their names.  So in a set of files that points nowhere else (`Model.Closed`) they run by
themselves.  Two models with the same part over such a set have the same part after every round, and
also in the end, whatever goes on outside and however many rounds it takes there
(`part_resolveAssociations`, `part_resolveAliases`).  Together with the names this makes linking
local: files that name only each other are linked to the same part in both models (`part_link`).
-/

namespace EntityModel

open Naming Linking

/-! ### Changed lists -/

theorem ModelFile.plain_mapLists {f : ModelFile}
    {lists lists' : PropertyOwner → List Property → List Property}
    {returns returns' : Property → Property} (hl : ∀ o ps, (∀ p ∈ ps, p ∈ f.properties) →
      (lists o ps).map Property.plain = lists' o (ps.map Property.plain))
    (hr : ∀ p ∈ f.properties, (returns p).plain = returns' p.plain) :
    (f.mapLists lists returns).plain = f.plain.mapLists lists' returns' := by
  have hc : ∀ c ∈ f.classes, ∀ p ∈ c.properties, p ∈ f.properties := fun c hc p hp =>
    List.mem_append_left _ (List.mem_append_left _ (List.mem_flatMap.mpr ⟨c, hc, hp⟩))
  have hd : ∀ d ∈ f.decorators, ∀ p ∈ d.properties, p ∈ f.properties := fun d hd p hp =>
    List.mem_append_left _ (List.mem_append_right _ (List.mem_flatMap.mpr ⟨d, hd, hp⟩))
  have he : ∀ e ∈ f.endpoints, ∀ p ∈ e.properties, p ∈ f.properties := fun e he p hp =>
    List.mem_append_right _ (List.mem_flatMap.mpr ⟨e, he, hp⟩)
  simp only [plain, mapProperties, mapLists, List.map_map, ModelFile.mk.injEq, true_and, and_true]
  refine ⟨List.map_congr_left fun d h => ?_, List.map_congr_left fun c h => ?_,
    List.map_congr_left fun e h => ?_⟩
  · simp only [Function.comp_apply, hl (.decorator d.id) d.properties (hd d h)]
  · simp only [Function.comp_apply, hl (.cls c.id) c.properties (hc c h)]
  · have hparams := hl (.params e.id) e.params fun p hp => he e h p (List.mem_append_left _ hp)
    have hreturns : ∀ p ∈ e.returns, (returns p).plain = returns' p.plain := fun p hp =>
      hr p (he e h p (List.mem_append_right _ (Option.mem_toList.mpr hp)))
    simp only [Function.comp_apply, Endpoint.mapParts, hparams, Option.map_map,
      Endpoint.mk.injEq, true_and, and_true]
    exact Option.map_congr hreturns

namespace Model

variable {K : FileId → Bool} {m m' : Model}

theorem part_mapLists (hm : m.Numbered)
    {lists lists' : PropertyOwner → List Property → List Property}
    {returns returns' : Property → Property}
    (hl : ∀ o ps, (∀ p ∈ ps, p ∈ m.properties ∧ K p.owner.file = true) →
      (lists o ps).map Property.plain = lists' o (ps.map Property.plain))
    (hr : ∀ p ∈ m.properties, K p.owner.file = true → (returns p).plain = returns' p.plain) :
    (m.mapLists lists returns).part K = (m.part K).mapLists lists' returns' := by
  refine part_mapFiles (fun _ => rfl) fun f hf hK => ?_
  have hmem : ∀ p ∈ f.properties, p ∈ m.properties ∧ K p.owner.file = true := fun p hp => by
    refine ⟨properties_of_mem hf hp, ?_⟩
    rw [((numbered_iff.mp hm).2 f hf).owner_file hp]
    exact hK
  exact ModelFile.plain_mapLists (fun o ps hps => hl o ps fun p hp => hmem p (hps p hp))
    fun p hp => hr p (hmem p hp).1 (hmem p hp).2

theorem part_mapProperties (hm : m.Numbered) {g g' : Property → Property}
    (hg : ∀ p ∈ m.properties, K p.owner.file = true → (g p).plain = g' p.plain) :
    (m.mapProperties g).part K = (m.part K).mapProperties g' := by
  refine part_mapLists hm (fun o ps hps => ?_) hg
  rw [List.map_map, List.map_map]
  exact List.map_congr_left fun p hp => hg p (hps p hp).1 (hps p hp).2

/-! ### Closed sets -/

theorem pointsTo_of_reference {p : Property} {r : ClassReference}
    (h : EntityReference.cls r ∈ propertyReferences p) : p.pointsTo = r.target := by
  unfold propertyReferences at h
  unfold Property.pointsTo
  cases hk : p.kind with
  | regular | association | propertyAlias => simp_all
  | composition c => cases hd : c.domain <;> simp_all

/-- A set of files stays closed while properties are made of those that were there. -/
theorem Closed.of_stems (h : m.Closed K) (hf : SameFrame m m') (hs : Stems m m') : m'.Closed K where
  parents c hc hK C hC := by
    obtain ⟨d, hd, he⟩ := hf.classes hc
    have hid : c.frame.id = d.frame.id := congrArg Class.id he
    have hparent : c.frame.parent = d.frame.parent := congrArg Class.parent he
    rw [show c.id = d.id from hid] at hK
    rw [show c.parent = d.parent from hparent] at hC
    exact h.parents d hd hK C hC
  decorators c hc hK u hu D hD := by
    obtain ⟨d, hd, he⟩ := hf.classes hc
    have hid : c.frame.id = d.frame.id := congrArg Class.id he
    have hdecorators : c.frame.decorators = d.frame.decorators := congrArg Class.decorators he
    rw [show c.id = d.id from hid] at hK
    rw [show c.decorators = d.decorators from hdecorators] at hu
    exact h.decorators d hd hK u hu D hD
  pointsTo p hp hK C hC := by
    obtain ⟨d, hd, hstem⟩ := hs p hp
    rw [hstem.owner] at hK
    obtain ⟨r, hr, ht⟩ := exists_reference_of_pointsTo hC
    rw [hstem.references] at hr
    exact h.pointsTo d hd hK C ((pointsTo_of_reference hr).trans ht)

/-- Nor does it matter to a closed set what classes say around their properties. -/
theorem Closed.mapClasses (h : m.Closed K) {g : Class → Class} (hg : Surrounding g)
    (hparent : ∀ c, (g c).parent = c.parent) : (m.mapClasses g).Closed K := by
  have hclass : ∀ c ∈ (m.mapClasses g).classes, ∃ d ∈ m.classes, c = g d := by
    intro c hc
    obtain ⟨f, hf, hc⟩ := List.mem_flatMap.mp hc
    obtain ⟨f₀, hf₀, rfl⟩ := List.mem_map.mp hf
    obtain ⟨d, hd, rfl⟩ := List.mem_map.mp hc
    exact ⟨d, List.mem_flatMap.mpr ⟨f₀, hf₀, hd⟩, rfl⟩
  refine ⟨fun c hc hK C hC => ?_, fun c hc hK u hu D hD => ?_, fun p hp hK C hC => ?_⟩
  · obtain ⟨d, hd, rfl⟩ := hclass c hc
    rw [hg.id] at hK
    rw [hparent] at hC
    exact h.parents d hd hK C hC
  · obtain ⟨d, hd, rfl⟩ := hclass c hc
    rw [hg.id] at hK
    rw [hg.decorators] at hu
    exact h.decorators d hd hK u hu D hD
  · rw [properties_mapClasses hg] at hp
    exact h.pointsTo p hp hK C hC

end Model

namespace Linking

variable {K : FileId → Bool} {m m' : Model} {rules : NamingRules} {settled : Bool}

/-! ### Associations -/

theorem openTarget_plain (p : Property) : openTarget p.plain = openTarget p := by
  unfold openTarget
  rw [association?_plain]

theorem plain_withAssociationTarget (target : Option PropertyId) (p : Property) :
    (withAssociationTarget target p).plain = withAssociationTarget target p.plain := by
  obtain ⟨id, l, k⟩ := p
  cases target with
  | none => rw [withAssociationTarget_none, withAssociationTarget_none]
  | some t => cases k <;> rfl

theorem associationTarget_part (h : m.Closed K) (hs : Sound rules settled m) {p : Property}
    (hp : p ∈ m.properties) (hK : K p.owner.file = true) :
    associationTarget (m.part K) rules settled p.plain = associationTarget m rules settled p := by
  refine Option.ext fun t => ?_
  rw [associationTarget_eq_some, associationTarget_eq_some, openTarget_plain]
  refine exists₂_congr fun C r => and_congr_right fun ho => ?_
  obtain ⟨a, hk, -, hC, -⟩ := openTarget_eq_some.mp ho
  have hCK := h.pointsTo p hp hK C (by simp [Property.pointsTo, hk, hC])
  rw [h.isSettled hs.numbered hCK, h.findProperty hs hCK]

theorem part_associationRound (h : m.Closed K) (hs : Sound rules settled m) :
    (associationRound m rules settled).part K = associationRound (m.part K) rules settled := by
  refine Model.part_mapProperties hs.numbered fun p hp hK => ?_
  rw [plain_withAssociationTarget, associationTarget_part h hs hp hK]

theorem Model.Closed.associationRound (h : m.Closed K) :
    (associationRound m rules settled).Closed K :=
  h.of_stems (sameFrame_mapProperties m _)
    (stems_mapProperties (resolving_associationRound m rules settled))

theorem part_iterate_associationRound (n : Nat) :
    ∀ {m : Model}, m.Closed K → Sound rules settled m →
    ((associationRound · rules settled)^[n] m).part K
      = (associationRound · rules settled)^[n] (m.part K) := by
  induction n with
  | zero => exact fun _ _ => rfl
  | succ n ih =>
    intro m h hs
    rw [Function.iterate_succ_apply, Function.iterate_succ_apply, ← part_associationRound h hs]
    exact ih (Model.Closed.associationRound h) hs.associationRound

/-- **Associations are resolved to the same part in both models.** -/
theorem part_resolveAssociations (h : m.Closed K) (h' : m'.Closed K) (hs : Sound rules settled m)
    (hs' : Sound rules settled m') (he : m.part K = m'.part K) :
    (resolveAssociations rules settled m).part K
      = (resolveAssociations rules settled m').part K := by
  have hn : openTargets m < openTargets m + openTargets m' + 1 := by omega
  have hn' : openTargets m' < openTargets m + openTargets m' + 1 := by omega
  rw [resolveAssociations_eq_iterate rules settled m hn,
    resolveAssociations_eq_iterate rules settled m' hn', part_iterate_associationRound _ h hs,
    part_iterate_associationRound _ h' hs', he]

/-! ### Carrying out a round -/

theorem id_plain (p : Property) : p.plain.id = p.id := rfl

theorem plain_pointing (id t : PropertyId) (p : Property) :
    (pointing id t p).plain = pointing id t p.plain := by
  obtain ⟨pid, l, k⟩ := p
  cases k with
  | propertyAlias a =>
    unfold pointing Property.plain PropertyKind.plain
    dsimp only
    split <;> rfl
  | _ => rfl

theorem plain_pointingAll (targets : List (PropertyId × PropertyId)) : ∀ {p : Property},
    K p.owner.file = true → (pointingAll targets p).plain
      = pointingAll (targets.filter fun x => K x.1.owner.file) p.plain := by
  induction targets with
  | nil => exact fun _ => rfl
  | cons x rest ih =>
    intro p hK
    have hrest := ih (p := pointing x.1 x.2 p) (by rwa [Property.owner, id_pointing])
    have hcons : pointingAll (x :: rest) p = pointingAll rest (pointing x.1 x.2 p) := rfl
    rw [hcons, hrest, plain_pointing]
    by_cases hx : K x.1.owner.file = true
    · rw [List.filter_cons, if_pos hx]
      rfl
    · have hne : p.plain.id ≠ x.1 := fun he => hx (he ▸ hK)
      rw [List.filter_cons, if_neg hx, pointing_of_ne hne]

theorem part_pointAll (hm : m.Numbered) (targets : List (PropertyId × PropertyId)) :
    (pointAll m targets).part K
      = pointAll (m.part K) (targets.filter fun x => K x.1.owner.file) := by
  rw [pointAll_eq, pointAll_eq]
  exact Model.part_mapProperties hm fun p _ hK => plain_pointingAll targets hK

/-- What choices are replaced by is free of domains. -/
def PlainKinds (expansions : List (PropertyId × List PropertyKind)) : Prop :=
  ∀ x ∈ expansions, ∀ k ∈ x.2, k.plain = k

theorem map_plain_spliced {expansions : List (PropertyId × List PropertyKind)}
    (h : PlainKinds expansions) {p : Property} (hK : K p.owner.file = true) :
    (spliced expansions p).map Property.plain
      = spliced (expansions.filter fun x => K x.1.owner.file) p.plain := by
  unfold spliced
  rw [id_plain, lookup_filter_key (fun id : PropertyId => K id.owner.file),
    if_pos (show K p.id.owner.file = true from hK)]
  cases hl : expansions.lookup p.id with
  | none => rfl
  | some kinds =>
    have hmem : (p.id, kinds) ∈ expansions := mem_of_lookup hl
    simp only [List.map_map]
    refine List.map_congr_left fun k hk => ?_
    simp only [Function.comp_apply, Property.plain, h _ hmem k hk]

theorem map_plain_renumber (o : PropertyOwner) (ps : List Property) :
    (renumber o ps).map Property.plain = renumber o (ps.map Property.plain) := by
  unfold renumber
  rw [List.zipIdx_map, List.map_map, List.map_map]
  rfl

theorem part_applyExpansions (hm : m.Numbered) {expansions : List (PropertyId × List PropertyKind)}
    (h : PlainKinds expansions) : (applyExpansions m expansions).part K
      = applyExpansions (m.part K) (expansions.filter fun x => K x.1.owner.file) := by
  rw [applyExpansions_eq_mapLists, applyExpansions_eq_mapLists]
  refine Model.part_mapLists hm (fun o ps hps => ?_) fun p _ hK => ?_
  · rw [map_plain_renumber, List.map_flatMap, List.flatMap_map]
    congr 1
    exact List.flatMap_congr fun p hp => map_plain_spliced h (hps p hp).2
  · rw [← map_plain_spliced h hK]
    cases spliced expansions p <;> rfl

theorem targetsOf_filter (steps : List (Property × Step)) :
    targetsOf (steps.filter fun x => K x.1.owner.file)
      = (targetsOf steps).filter fun x => K x.1.owner.file := by
  unfold targetsOf
  rw [List.filterMap_filter, List.filter_filterMap]
  refine List.filterMap_congr fun x _ => ?_
  cases ho : x.2.outcome <;> cases hK : K x.1.owner.file
    <;> simp_all [Property.owner, Option.filter]

theorem expansionsOf_filter (steps : List (Property × Step)) :
    expansionsOf (steps.filter fun x => K x.1.owner.file)
      = (expansionsOf steps).filter fun x => K x.1.owner.file := by
  unfold expansionsOf
  rw [List.filterMap_filter, List.filter_filterMap]
  refine List.filterMap_congr fun x _ => ?_
  cases ho : x.2.outcome <;> cases hK : K x.1.owner.file
    <;> simp_all [Property.owner, Option.filter]

/-- The steps of the files of a set are carried out by themselves. -/
theorem part_carryOut (hm : m.Numbered) {steps : List (Property × Step)}
    (h : PlainKinds (expansionsOf steps)) :
    (carryOut m steps).part K = carryOut (m.part K) (steps.filter fun x => K x.1.owner.file) := by
  unfold carryOut
  rw [part_applyExpansions (numbered_pointAll hm _) h, part_pointAll hm, targetsOf_filter,
    expansionsOf_filter]

/-! ### Rounds over aliases -/

theorem properties_part (hm : m.Numbered) : (m.part K).properties
    = (m.properties.filter fun p => K p.owner.file).map Property.plain := by
  have howner : ∀ f ∈ m.files, ∀ p ∈ f.properties, p.owner.file = f.id := fun f hf p hp =>
    ((Model.numbered_iff.mp hm).2 f hf).owner_file hp
  have hc := filter_flatMap_files (fun p : Property => p.owner.file) (K := K)
    (g := fun f => f.classes.flatMap Class.properties)
    fun f hf p hp => howner f hf p (List.mem_append_left _ (List.mem_append_left _ hp))
  have hd := filter_flatMap_files (fun p : Property => p.owner.file) (K := K)
    (g := fun f => f.decorators.flatMap Decorator.properties)
    fun f hf p hp => howner f hf p (List.mem_append_left _ (List.mem_append_right _ hp))
  have he := filter_flatMap_files (fun p : Property => p.owner.file) (K := K)
    (g := fun f => f.endpoints.flatMap Endpoint.properties)
    fun f hf p hp => howner f hf p (List.mem_append_right _ hp)
  have hmaps : ∀ f : ModelFile, f.plain.classes = f.classes.map Class.plain ∧
      f.plain.decorators = f.decorators.map Decorator.plain ∧
      f.plain.endpoints = f.endpoints.map Endpoint.plain := fun _ => ⟨rfl, rfl, rfl⟩
  have hparts : ∀ e : Endpoint, e.plain.properties = e.properties.map Property.plain := fun e => by
    simp [Endpoint.plain, Endpoint.mapParts, Endpoint.properties, Model.toList_map]
  simp only [Model.properties, Model.classes, Model.decorators, Model.endpoints, List.flatMap_assoc,
    List.filter_append, hc, hd, he, List.map_append, List.map_flatMap, Model.part,
    List.flatMap_map, hmaps, hparts]
  rfl

theorem isOpenAlias_plain (p : Property) : isOpenAlias p.plain = isOpenAlias p := by
  unfold isOpenAlias
  rw [alias?_plain]

theorem plain_of_isOpenAlias {p : Property} (h : isOpenAlias p = true) : p.plain = p := by
  obtain ⟨a, hk, -⟩ := isOpenAlias_iff.mp h
  obtain ⟨id, l, k⟩ := p
  obtain rfl : k = .propertyAlias a := hk
  rfl

/-- The open aliases of the files of a set are those of the part. -/
theorem pendingAliases_part (hm : m.Numbered) :
    (pendingAliases { model := m }).filter (fun p => K p.owner.file)
      = pendingAliases { model := m.part K } := by
  have hopen : ∀ n : Model, pendingAliases { model := n } = n.properties.filter isOpenAlias :=
    fun n => by
    simp [pendingAliases]
  have hfilter : ∀ ps : List Property,
      (ps.map Property.plain).filter isOpenAlias = ps.filter isOpenAlias := by
    intro ps
    rw [List.filter_map, show isOpenAlias ∘ Property.plain = isOpenAlias
      from funext isOpenAlias_plain]
    exact (List.map_congr_left fun p hp => plain_of_isOpenAlias (List.mem_filter.mp hp).2).trans
      (List.map_id' _)
  rw [hopen, hopen, properties_part hm, hfilter, List.filter_filter, List.filter_filter]
  exact List.filter_congr fun p _ => Bool.and_comm _ _

/-- **What becomes of an alias depends only on the class that it points to**, unless it fails. -/
theorem outcome_congr {p : Property} (hC : ∀ C, p.pointsTo = some C →
      isSettled m' C = isSettled m C ∧ namedCandidates m' rules C = namedCandidates m rules C)
    (h : (propertyStep m rules p).outcome ≠ .failed)
    (h' : (propertyStep m' rules p).outcome ≠ .failed) :
    (propertyStep m' rules p).outcome = (propertyStep m rules p).outcome := by
  unfold propertyStep at h h' ⊢
  cases ha : p.alias? with
  | none => rfl
  | some a =>
    have hk : p.pointsTo = a.cls.target := by
      obtain ⟨id, l, k⟩ := p
      cases k <;> simp_all [Property.alias?, Property.pointsTo]
    simp only [ha] at h h' ⊢
    cases ht : a.cls.target with
    | none => rfl
    | some C =>
      obtain ⟨hsettled, hnamed⟩ := hC C (hk.trans ht)
      simp only [ht, aliasStep, hsettled, hnamed] at h h' ⊢
      split
      · rfl
      next hs =>
        rw [if_neg hs] at h h'
        cases hp : a.property with
        | none =>
          simp only []
          split
          · rfl
          · cases p.owner with
            | returns e => simp only []; split <;> rfl
            | _ => rfl
        | some r =>
          simp only [hp] at h h'
          cases hf : findCandidate (namedCandidates m rules C) r.text with
          | none => simp only [hf]; split <;> rfl
          | some t =>
            -- the check for cycles, which looks further, is passed in both models
            simp only [hf] at h h' ⊢
            rw [if_neg fun hc => h' (by rw [if_pos hc]), if_neg fun hc => h (by rw [if_pos hc])]

theorem namedCandidates_part (h : m.Closed K) (hs : Sound rules settled m) {C : ClassId}
    (hC : K C.file = true) : namedCandidates (m.part K) rules C = namedCandidates m rules C := by
  unfold namedCandidates
  rw [h.classProperties hs.numbered hC, List.map_map]
  refine List.map_congr_left fun p hp => ?_
  simp only [Function.comp_apply, id_plain, h.propertyName? hs (h.owner_file hs.numbered hC hp)]

/-- What a choice is replaced by is free of domains. -/
theorem plainKinds_stepsOf (rules : NamingRules) (m : Model) (pending : List Property) :
    PlainKinds (expansionsOf (stepsOf rules m pending)) := by
  intro x hx k hk
  obtain ⟨⟨p, step⟩, hy, he⟩ := List.mem_filterMap.mp hx
  obtain ⟨q, -, hq⟩ := List.mem_map.mp hy
  obtain ⟨rfl, rfl⟩ := Prod.mk.inj hq
  cases ho : (propertyStep m rules q).outcome with
  | expand kinds =>
    simp only [ho, Option.some.injEq] at he
    subst he
    obtain ⟨a, C, -, -, -, -, hkinds⟩ := (mayExpand_of_step ho).expands
    obtain ⟨t, name, rfl, -⟩ := hkinds k hk
    rfl
  | _ => simp [ho] at he

theorem filter_stepsOf (rules : NamingRules) (m : Model) (pending : List Property) :
    (stepsOf rules m pending).filter (fun x => K x.1.owner.file)
      = stepsOf rules m (pending.filter fun p => K p.owner.file) := by
  unfold stepsOf
  rw [List.filter_map]
  rfl

/-- **A quiet round comes to the same part in both models.** -/
theorem part_quietRound {D D' : Model} (hD : D.Closed K) (hD' : D'.Closed K) (hm : Calm rules D m)
    (hm' : Calm rules D' m') (he : m.part K = m'.part K) :
    (quietRound rules m).part K = (quietRound rules m').part K := by
  have hc := hD.of_stems hm.frame hm.stems
  have hc' := hD'.of_stems hm'.frame hm'.stems
  have hpart := part_resolveAssociations hc hc' hm.sound hm'.sound he
  have hca : (resolveAssociations rules true m).Closed K :=
    hc.of_stems (sameFrame_associationRounds _ _ _) (stems_associationRounds _ _ _ _)
  have hca' : (resolveAssociations rules true m').Closed K :=
    hc'.of_stems (sameFrame_associationRounds _ _ _) (stems_associationRounds _ _ _ _)
  have hs := hm.sound.resolveAssociations
  have hs' := hm'.sound.resolveAssociations
  have hproblems := hm.problems
  have hproblems' := hm'.problems
  have houtcome := hm.outcome
  have houtcome' := hm'.outcome
  unfold quietRound
  generalize resolveAssociations rules true m = a at *
  generalize resolveAssociations rules true m' = a' at *
  have hpending : (pendingAliases { model := a }).filter (fun p => K p.owner.file)
      = (pendingAliases { model := a' }).filter fun p => K p.owner.file := by
    rw [pendingAliases_part hs.numbered, pendingAliases_part hs'.numbered, hpart]
  rw [part_carryOut hs.numbered (plainKinds_stepsOf _ _ _),
    part_carryOut hs'.numbered (plainKinds_stepsOf _ _ _), hpart, filter_stepsOf,
    filter_stepsOf, ← hpending]
  congr 1
  refine List.map_congr_left fun p hp => ?_
  have hp' := hpending ▸ hp
  obtain ⟨hp, hK⟩ := List.mem_filter.mp hp
  obtain ⟨hp', -⟩ := List.mem_filter.mp hp'
  have hmem := (openAliases_pending (s := { model := a }) hs.numbered).mem p hp
  have hsame : (propertyStep a' rules p).outcome = (propertyStep a rules p).outcome := by
    refine outcome_congr (fun C hC => ?_) (houtcome p hp) (houtcome' p hp')
    have hCK := hca.pointsTo p hmem hK C hC
    rw [← hca'.isSettled hs'.numbered hCK, ← hca.isSettled hs.numbered hCK,
      ← namedCandidates_part hca' hs' hCK, ← namedCandidates_part hca hs hCK, hpart]
    exact ⟨rfl, rfl⟩
  have hstep : ∀ x y : Step, x.outcome = y.outcome → x.problems = [] → y.problems = [] → x = y := by
    rintro ⟨_, _⟩ ⟨_, _⟩ rfl rfl rfl
    rfl
  rw [hstep _ _ hsame (hproblems' p hp') (hproblems p hp)]

theorem part_iterate_quietRound {D D' : Model} (hD : D.Closed K) (hD' : D'.Closed K)
    (hm : ∀ n, Calm rules D ((quietRound rules)^[n] m))
    (hm' : ∀ n, Calm rules D' ((quietRound rules)^[n] m')) (he : m.part K = m'.part K) (n : Nat) :
    ((quietRound rules)^[n] m).part K = ((quietRound rules)^[n] m').part K := by
  induction n with
  | zero => exact he
  | succ n ih =>
    rw [Function.iterate_succ_apply', Function.iterate_succ_apply']
    exact part_quietRound hD hD' (hm n) (hm' n) ih

/-- **Aliases are resolved to the same part in both models**, where nothing goes wrong. -/
theorem part_resolveAliases (h : m.Closed K) (h' : m'.Closed K) (hs : Sound rules true m)
    (hs' : Sound rules true m') (hknown : ReferencesKnown m) (hknown' : ReferencesKnown m')
    (hnone : ∀ d ∈ (resolveAliases rules m).problems, d.isError = false)
    (hnone' : ∀ d ∈ (resolveAliases rules m').problems, d.isError = false)
    (he : m.part K = m'.part K) :
    (resolveAliases rules m).model.part K = (resolveAliases rules m').model.part K := by
  obtain ⟨hcalm, n, hn⟩ := iterate_of_no_errors hs hknown hnone
  obtain ⟨hcalm', n', hn'⟩ := iterate_of_no_errors hs' hknown' hnone'
  rw [hn (max n n') (le_max_left _ _), hn' (max n n') (le_max_right _ _)]
  exact part_iterate_quietRound h h' hcalm hcalm' he _

/-! ### What classes name -/

theorem plain_resolveClassProperties (find : String → Option PropertyId) (c : Class) :
    (resolveClassProperties find c).plain = resolveClassProperties find c.plain := rfl

theorem part_resolvePropertyReferences (h : m.Closed K) (hs : Sound rules settled m) :
    (resolvePropertyReferences rules m).part K = resolvePropertyReferences rules (m.part K) := by
  refine Model.part_mapFiles (fun _ => rfl) fun f hf hK => ?_
  have hfind : ∀ c ∈ f.classes, (m.part K).findProperty rules c.id = m.findProperty rules c.id := by
    intro c hc
    have hCK : K c.id.file = true := by rwa [(hs.numbered.classes f hf).file hc]
    exact funext fun name => h.findProperty hs hCK name
  have hclasses : f.classes.map
        (Class.plain ∘ fun c => resolveClassProperties (m.findProperty rules c.id) c)
      = f.classes.map ((fun c => resolveClassProperties ((m.part K).findProperty rules c.id) c) ∘
        Class.plain) := by
    refine List.map_congr_left fun c hc => ?_
    simp only [Function.comp_apply, plain_resolveClassProperties]
    rw [show c.plain.id = c.id from rfl, hfind c hc]
  have hsame := congrArg (fun classes => { f.plain with classes }) hclasses
  rw [← List.map_map, ← List.map_map] at hsame
  exact hsame

/-! ### The stages together -/

theorem closed_expanded {D : Model} (hD : D.AsLoaded) (hw : D.NamesWithin K) :
    (expanded rules D).model.Closed K := by
  have hrun := run_resolveAliases (sound_named rules hD)
  exact (closed_linkNames hD hw).of_stems hrun.sameFrame (hrun.stems (sound_named rules hD))

theorem closed_associated {D : Model} (hD : D.AsLoaded) (hw : D.NamesWithin K) :
    (associated rules D).Closed K :=
  (closed_expanded hD hw).of_stems (sameFrame_associationRounds _ _ _)
    (stems_associationRounds _ _ _ _)

/-- **Linking is local.**  Two models linked without errors, in which the files of a set name only
each other and are the same but for domains, have the same part over this set. -/
theorem part_link {D D' : Model} (hD : D.AsLoaded) (hD' : D'.AsLoaded) (hw : D.NamesWithin K)
    (hw' : D'.NamesWithin K) (hnone : ∀ d ∈ (D.link rules).problems, d.isError = false)
    (hnone' : ∀ d ∈ (D'.link rules).problems, d.isError = false) (he : D.part K = D'.part K) :
    (D.link rules).model.part K = (D'.link rules).model.part K := by
  have hnamed : (linkNames D).model.part K = (linkNames D').model.part K := by
    rw [part_linkNames hD hw, part_linkNames hD' hw', he]
  have hquiet : ∀ {D : Model}, (∀ d ∈ (D.link rules).problems, d.isError = false) →
      ∀ d ∈ (resolveAliases rules (linkNames D).model).problems, d.isError = false :=
      fun hnone d hd =>
    hnone d (by rw [link_problems]; simp [expanded, hd])
  have hexpanded : (expanded rules D).model.part K = (expanded rules D').model.part K :=
    part_resolveAliases (closed_linkNames hD hw) (closed_linkNames hD' hw') (sound_named rules hD)
      (sound_named rules hD') (referencesKnown_of_linkNames (nothing_reported hnone).1)
      (referencesKnown_of_linkNames (nothing_reported hnone').1) (hquiet hnone)
        (hquiet hnone') hnamed
  have hassociated : (associated rules D).part K = (associated rules D').part K :=
    part_resolveAssociations (closed_expanded hD hw) (closed_expanded hD' hw')
      (sound_expanded hD).unsettled (sound_expanded hD').unsettled hexpanded
  rw [link_model, link_model,
    part_resolvePropertyReferences (closed_associated hD hw) (sound_associated hD),
    part_resolvePropertyReferences (closed_associated hD' hw') (sound_associated hD'), hassociated]

/-- In the linked model, too, the files of the set point nowhere else. -/
theorem closed_link {D : Model} (hD : D.AsLoaded) (hw : D.NamesWithin K) :
    (D.link rules).model.Closed K := by
  rw [link_model, resolvePropertyReferences_eq]
  exact (closed_associated hD hw).mapClasses (surrounding_resolveClassProperties _) fun _ => rfl

end Linking

end EntityModel
