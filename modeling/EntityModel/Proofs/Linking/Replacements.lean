import EntityModel.Proofs.Linking.Fixpoints
import EntityModel.Proofs.Linking.NameProblems
import EntityModel.Proofs.Linking.Stages

/-!
# What stands in the place of a property

Linking leaves a property where it was, or puts aliases in its place.  `InPlaceOf` says which: the
property itself, with its reference to a property resolved at most, or, for a choice of properties,
one alias for each property that the choice comes to.  `Replaces` says it of whole models, list by
list.  Both can be carried from one stage to the next (`Replaces.trans`), because what a choice
comes to is read off a settled class, which later stages keep (`Chooses.keeps`).  Each stage of a
link without errors replaces the lists of the one before (`Replaces.mapProperties`,
`replaces_carryOut`).
-/

namespace EntityModel

/-- Without the things that its references stand for; only their names are left. -/
def PropertyKind.unlinked : PropertyKind → PropertyKind
  | .regular p => .regular { p with domain := .ofName p.domain.name }
  | .association p =>
    .association { p with
      association := .ofName p.association.name
      property := p.property.map fun r => .ofName r.name }
  | .composition p =>
    .composition { p with
      composition := .ofName p.composition.name
      domain := p.domain.map fun r => .ofName r.name }
  | .propertyAlias p =>
    .propertyAlias { p with
      cls := .ofName p.cls.name
      property := p.property.map fun r => .ofName r.name }

theorem PropertyKind.Resolves.unlinked {k k' : PropertyKind} (h : k.Resolves k') :
    k'.unlinked = k.unlinked := by
  cases h with
  | refl => rfl
  | association id ha _ | propertyAlias id ha _ =>
    simp [PropertyKind.unlinked, ha, Reference.resolve]

/-- A choice has no reference to a property that could be resolved. -/
theorem PropertyKind.Resolves.eq_of_choice {k k' : PropertyKind} (h : k.Resolves k')
    {a : AliasProperty}
    (hk : k = .propertyAlias a ∨ k' = .propertyAlias a) (ha : a.property = none) : k' = k := by
  cases h with
  | refl => rfl
  | association => simp at hk
  | propertyAlias id hr _ =>
    rcases hk with hk | hk
    · obtain rfl := PropertyKind.propertyAlias.inj hk
      simp [ha] at hr
    · obtain rfl := PropertyKind.propertyAlias.inj hk
      simp at ha

namespace Linking

variable {rules : NamingRules} {m m' : Model}

theorem unlinked_resolveKind (cls : String → Option ClassId) (domain : String → Option DomainId)
    (k : PropertyKind) : (resolveKind cls domain k).unlinked = k.unlinked := by
  cases k with
  | composition c => cases hd : c.domain
    <;> simp [resolveKind, PropertyKind.unlinked, resolveBy_name, hd]
  | _ => simp [resolveKind, PropertyKind.unlinked, resolveBy_name]

/-! ### What a choice comes to -/

/-- The alias `a`, which stands at `location` for a choice of the properties of `C`, comes to
`chosen`: the class is settled, all of its properties have names, and the alias names none that is
not there. -/
structure Chooses (rules : NamingRules) (m : Model) (C : ClassId) (location : Location)
    (a : AliasProperty) (chosen : List (PropertyId × Located String)) : Prop where
  settled : isSettled m C = true
  named : (namedCandidates m rules C).all (fun (_, name) => name.isSome) = true
  known : unknownChoices (namedCandidates m rules C) a = []
  chosen : chosenProperties (namedCandidates m rules C) location a = chosen

/-- A settled class whose properties have names keeps them under these names. -/
theorem Keeps.candidates (h : Keeps rules m m') {C : ClassId} (hs : isSettled m C = true)
    (hnamed : (namedCandidates m rules C).all (fun (_, name) => name.isSome) = true) :
    namedCandidates m' rules C = namedCandidates m rules C := by
  unfold namedCandidates at hnamed ⊢
  have hname : ∀ q ∈ m.classProperties C,
      m'.propertyName? rules q.id = m.propertyName? rules q.id := by
    intro q hq
    have hsome : (m.propertyName? rules q.id).isSome = true :=
      List.all_eq_true.mp hnamed _ (List.mem_map_of_mem hq)
    obtain ⟨name, hn⟩ := Option.isSome_iff_exists.mp hsome
    obtain ⟨-, -, -, hn'⟩ := h.names C name q.id hs ⟨q, hq, rfl, hn⟩
    rw [hn', hn]
  have hsame : ∀ {l l' : List Property}, List.Forall₂ Property.StaysAs l l' →
      (∀ q ∈ l, m'.propertyName? rules q.id = m.propertyName? rules q.id) →
      l'.map (fun p => (p.id, m'.propertyName? rules p.id))
        = l.map fun p => (p.id, m.propertyName? rules p.id) := by
    intro l l' hl
    induction hl with
    | nil =>
      -- by `rfl` the two look-ups would be compared step by step
      intro _
      rw [List.map_nil, List.map_nil]
    | cons hq _ ih =>
      intro hnames
      rw [List.map_cons, List.map_cons, ih fun q hq => hnames q (List.mem_cons_of_mem _ hq), hq.id,
        hnames _ List.mem_cons_self]
  exact hsame (h.properties C hs) hname

/-- **What a choice comes to stays the same from then on.** -/
theorem Chooses.keeps {C : ClassId} {location : Location} {a : AliasProperty}
    {chosen : List (PropertyId × Located String)} (h : Chooses rules m C location a chosen)
    (hk : Keeps rules m m') : Chooses rules m' C location a chosen := by
  have hsame := hk.candidates h.settled h.named
  exact ⟨hk.settled C h.settled, hsame ▸ h.named, hsame ▸ h.known, hsame ▸ h.chosen⟩

/-- A choice that is expanded without a word is expanded to what it comes to. -/
theorem chooses_of_step {p : Property} {kinds : List PropertyKind}
    (h : (propertyStep m rules p).outcome = .expand kinds)
    (hquiet : (propertyStep m rules p).problems = []) :
    ∃ a C chosen, p.kind = .propertyAlias a ∧ a.property = none ∧ a.cls.target = some C ∧
      Chooses rules m C p.location a chosen ∧
      kinds = chosen.map fun x => expandedAlias a x.1 x.2 := by
  obtain ⟨⟨a, C, hk, hnone, hC, hs, -⟩, -⟩ := mayExpand_of_step h
  simp only [propertyStep, Property.alias?, hk, hC, aliasStep, hs, Bool.not_true,
    Bool.false_eq_true, if_false, hnone] at h hquiet
  split at h
  · simp at h
  next hall =>
    rw [if_neg hall] at hquiet
    rw [Bool.not_eq_true', Bool.not_eq_false] at hall
    refine ⟨a, C, _, hk, hnone, hC, ⟨hs, hall, ?_, rfl⟩, ?_⟩
    · -- both ways to expand report what the alias names in vain
      split at hquiet
      · split at hquiet
        · exact List.map_eq_nil_iff.mp hquiet
        · simp at hquiet
      · exact List.map_eq_nil_iff.mp hquiet
    · split at h
      · split at h
        · exact (Outcome.expand.inj h).symm
        · simp at h
      · exact (Outcome.expand.inj h).symm

/-! ### Blocks -/

/-- The properties `block` stand in the place of `p`: it is alone there, and nothing but its
reference to a property may have been resolved, or it is a choice, and there is an alias for each
property that it comes to. -/
inductive InPlaceOf (rules : NamingRules) (m : Model) (p : Property) : List Property → Prop
  | itself {q : Property} :
    q.location = p.location → p.kind.Resolves q.kind → InPlaceOf rules m p [q]
  | aliases {a : AliasProperty} {C : ClassId} {chosen : List (PropertyId × Located String)}
      {block : List Property} : p.kind = .propertyAlias a → a.property = none →
      a.cls.target = some C →
      Chooses rules m C p.location a chosen →
      block.map Property.content = chosen.map (fun x => (p.location, expandedAlias a x.1 x.2)) →
      InPlaceOf rules m p block

theorem InPlaceOf.of_content {p : Property} {block block' : List Property}
    (h : InPlaceOf rules m p block)
    (he : block'.map Property.content = block.map Property.content) :
    InPlaceOf rules m p block' := by
  cases h with
  | itself hl hk =>
    rename_i q
    obtain ⟨q', rfl, hq⟩ := List.map_eq_singleton_iff.mp he
    have hkind : q'.kind = q.kind := congrArg Prod.snd hq
    exact .itself ((congrArg Prod.fst hq).trans hl) (hkind ▸ hk)
  | aliases hk ha hC hchooses hblock => exact .aliases hk ha hC hchooses (he.trans hblock)

theorem InPlaceOf.keeps {p : Property} {block : List Property} (h : InPlaceOf rules m p block)
    (hk : Keeps rules m m') : InPlaceOf rules m' p block := by
  cases h with
  | itself hl hres => exact .itself hl hres
  | aliases hp ha hC hchooses hblock => exact .aliases hp ha hC (hchooses.keeps hk) hblock

theorem InPlaceOf.content_of_expanded {q : Property} {block : List Property} {a : AliasProperty}
    {t : PropertyId} {name : Located String} (h : InPlaceOf rules m q block)
    (hk : q.kind = expandedAlias a t name) : block.map Property.content = [q.content] := by
  cases h with
  | itself hl hres =>
    rename_i q'
    have hknown : q.kind.lookup? = some (a.cls, { name, target := some t }) := by
      rw [hk]
      rfl
    have hsame : q'.kind = q.kind := hres.lookup? hknown rfl
    rw [List.map_singleton, Property.content, Property.content, hl, hsame]
  | aliases hk' ha _ _ _ =>
    rw [hk] at hk'
    obtain rfl := PropertyKind.propertyAlias.inj hk'
    simp at ha

/-- **Blocks in the places of the properties of a block make one block.** -/
theorem InPlaceOf.trans {p : Property} {block : List Property} {blocks : List (List Property)}
    (h : InPlaceOf rules m p block) (hkeeps : Keeps rules m m')
    (hblocks : List.Forall₂ (InPlaceOf rules m') block blocks) :
    InPlaceOf rules m' p blocks.flatten := by
  cases h with
  | itself hl hres =>
    obtain ⟨b, bs, hb, hbs, rfl⟩ := List.forall₂_cons_left_iff.mp hblocks
    obtain rfl := List.forall₂_nil_left_iff.mp hbs
    rw [List.flatten_cons, List.flatten_nil, List.append_nil]
    cases hb with
    | itself hl' hres' => exact .itself (hl'.trans hl) (hres.trans hres')
    | aliases hk ha hC hchooses hblock =>
      -- a choice was one from the beginning
      have hsame := hres.eq_of_choice (Or.inr hk) ha
      rw [hl] at hchooses hblock
      exact .aliases (hsame.symm.trans hk) ha hC hchooses hblock
  | aliases hk ha hC hchooses hblock =>
    refine .aliases hk ha hC (hchooses.keeps hkeeps) (Eq.trans ?_ hblock)
    have hexpanded : ∀ q ∈ block, ∃ a t name, q.kind = expandedAlias a t name := by
      intro q hq
      have hmem : q.content ∈ block.map Property.content := List.mem_map_of_mem hq
      rw [hblock] at hmem
      obtain ⟨x, -, hx⟩ := List.mem_map.mp hmem
      exact ⟨_, x.1, x.2, (congrArg Prod.snd hx).symm⟩
    clear hblock
    induction hblocks with
    | nil => rfl
    | cons hb _ ih =>
      obtain ⟨a', t, name, hq⟩ := hexpanded _ List.mem_cons_self
      rw [List.flatten_cons, List.map_append, hb.content_of_expanded hq,
        ih fun q hq => hexpanded q (List.mem_cons_of_mem _ hq)]
      rfl

/-! ### Lists in blocks -/

/-- Blocks in the places of all the properties of some blocks can be put together block by block. -/
theorem exists_blocks_trans (hkeeps : Keeps rules m m') {ps : List Property}
    {blocks : List (List Property)} (h : List.Forall₂ (InPlaceOf rules m) ps blocks) :
    ∀ later, List.Forall₂ (InPlaceOf rules m') blocks.flatten later →
      ∃ blocks', later.flatten = blocks'.flatten ∧
      List.Forall₂ (InPlaceOf rules m') ps blocks' := by
  induction h with
  | nil =>
    intro later hlater
    obtain rfl := List.forall₂_nil_left_iff.mp hlater
    exact ⟨[], rfl, .nil⟩
  | cons hb _ ih =>
    rename_i p b ps bs _
    intro later hlater
    rw [List.flatten_cons] at hlater
    have hhead := List.forall₂_take_append _ _ _ hlater.flip
    have htail := List.forall₂_drop_append _ _ _ hlater.flip
    obtain ⟨blocks', hflat, hrest⟩ := ih _ htail.flip
    refine ⟨(later.take b.length).flatten :: blocks', ?_, .cons (hb.trans hkeeps hhead.flip) hrest⟩
    rw [List.flatten_cons, ← hflat, ← List.flatten_append, List.take_append_drop]

/-- A list with the contents of blocks consists of blocks with their contents. -/
theorem exists_blocks_of_content (f : Property → List Property) (ps : List Property) :
    ∀ qs : List Property, qs.map Property.content = (ps.flatMap f).map Property.content →
      ∃ blocks, qs = blocks.flatten ∧
        List.Forall₂ (fun p b => b.map Property.content = (f p).map Property.content)
          ps blocks := by
  induction ps with
  | nil =>
    intro qs h
    exact ⟨[], List.map_eq_nil_iff.mp h, .nil⟩
  | cons p ps ih =>
    intro qs h
    rw [List.flatMap_cons, List.map_append] at h
    obtain ⟨b, rest, rfl, hb, hrest⟩ := List.map_eq_append_iff.mp h
    obtain ⟨blocks, rfl, hblocks⟩ := ih rest hrest
    exact ⟨b :: blocks, rfl, .cons hb hblocks⟩

/-- Every list of `m'` is the one of `m` with blocks in the places of its properties; what an
endpoint returns stays one property. -/
structure Replaces (rules : NamingRules) (m m' : Model) : Prop where
  owners : m'.owned.map Prod.fst = m.owned.map Prod.fst
  lists : ∀ o ps, (o, ps) ∈ m.owned → ∃ blocks, (o, List.flatten blocks) ∈ m'.owned ∧
    List.Forall₂ (InPlaceOf rules m') ps blocks ∧
    ∀ e, o = .returns e → blocks.flatten.length = ps.length
  keeps : Keeps rules m m'

/-- **What replaces the lists of a model and is replaced in turn.** -/
theorem Replaces.trans {m'' : Model} (h : Replaces rules m m') (h' : Replaces rules m' m'') :
    Replaces rules m m'' where
  owners := h'.owners.trans h.owners
  lists o ps ho := by
    obtain ⟨blocks, hblocks, hplaces, hlength⟩ := h.lists o ps ho
    obtain ⟨later, hlater, hplaces', hlength'⟩ := h'.lists o blocks.flatten hblocks
    obtain ⟨blocks', hflat, hwhole⟩ := exists_blocks_trans h'.keeps hplaces later hplaces'
    refine ⟨blocks', hflat ▸ hlater, hwhole, fun e he => ?_⟩
    rw [← hflat, hlength' e he, hlength e he]
  keeps := h.keeps.trans h'.keeps

/-- A change of lists that puts the blocks `f` in the places of the properties. -/
theorem Replaces.of_mapLists {lists : PropertyOwner → List Property → List Property}
    {returns : Property → Property} (f : Property → List Property)
    (hlists : ∀ o ps, (o, ps) ∈ m.owned →
      (changedList lists returns o ps).map Property.content = (ps.flatMap f).map Property.content)
    (hplaces : ∀ p ∈ m.properties, InPlaceOf rules (m.mapLists lists returns) p (f p))
    (hkeeps : Keeps rules m (m.mapLists lists returns)) :
    Replaces rules m (m.mapLists lists returns) where
  owners := by
    rw [Model.owned_mapLists, List.map_map]
    rfl
  lists o ps ho := by
    obtain ⟨blocks, hflat, hblocks⟩ := exists_blocks_of_content f ps _ (hlists o ps ho)
    refine ⟨blocks, ?_, ?_, fun e he => ?_⟩
    · rw [Model.owned_mapLists, ← hflat]
      exact List.mem_map_of_mem (f := fun x => (x.1, changedList lists returns x.1 x.2)) ho
    · have hmem : ∀ p ∈ ps, p ∈ m.properties :=
        fun p hp => Model.mem_properties_iff.mpr ⟨o, ps, ho, hp⟩
      refine ((List.forall₂_and_left ps blocks).mpr ⟨hmem, hblocks⟩).imp fun p b hpb => ?_
      exact (hplaces p hpb.1).of_content hpb.2
    · rw [← hflat, he]
      exact List.length_map _
  keeps := hkeeps

theorem Replaces.of_owned {m'' : Model} (h : Replaces rules m m') (ho : m''.owned = m'.owned)
    (hk : Keeps rules m' m'') : Replaces rules m m'' where
  owners := by rw [ho, h.owners]
  lists o ps hmem := by
    obtain ⟨blocks, hblocks, hplaces, hlength⟩ := h.lists o ps hmem
    exact ⟨blocks, ho ▸ hblocks, hplaces.imp fun _ _ hb => hb.keeps hk, hlength⟩
  keeps := h.keeps.trans hk

/-! ### The stages -/

/-- Resolving references in place leaves every property alone in its place. -/
theorem Replaces.mapProperties {g : Property → Property} (hm : m.Numbered) (hg : m.Resolving g) :
    Replaces rules m (m.mapProperties g) := by
  refine .of_mapLists (fun p => [g p]) (fun o ps _ => ?_) (fun p hp => ?_) (.mapProperties hm hg)
  · rw [← List.map_eq_flatMap]
    cases o <;> rfl
  · exact .itself (hg.location p) (hg.kind p hp)

theorem Replaces.refl (hm : m.Numbered) : Replaces rules m m := by
  have hself : m.mapProperties id = m := Model.mapProperties_eq_self fun _ _ => rfl
  have h : Replaces rules m (m.mapProperties id) :=
    .mapProperties hm ⟨fun _ => rfl, fun _ => rfl, fun _ _ => .refl _⟩
  rwa [hself] at h

theorem replaces_associationRounds {settled : Bool} (fuel : Nat) (hs : Sound rules settled m) :
    Replaces rules m (associationRounds rules settled fuel m) := by
  induction fuel generalizing m with
  | zero => exact .refl hs.numbered
  | succ fuel ih =>
    unfold associationRounds
    split
    · exact .trans (.mapProperties hs.numbered (resolving_associationRound _ _ _))
        (ih hs.associationRound)
    · exact .refl hs.numbered

theorem resolving_pointingAll (hm : m.Numbered) {targets : List (PropertyId × PropertyId)}
    (hmay : AllMayPoint rules m targets) (hnodup : (targets.map Prod.fst).Nodup) :
    m.Resolving (pointingAll targets) where
  id := id_pointingAll targets
  location p := by
    induction targets generalizing p with
    | nil => rfl
    | cons x rest ih =>
      rw [List.map_cons, List.nodup_cons] at hnodup
      refine (ih (fun y hy => hmay y (List.mem_cons_of_mem _ hy)) hnodup.2
        (pointing x.1 x.2 p)).trans ?_
      unfold pointing
      split
      · split <;> rfl
      · rfl
  kind p hp := by
    by_cases hkey : ∃ t, (p.id, t) ∈ targets
    · obtain ⟨t, ht⟩ := hkey
      obtain ⟨q, hq, hid, hpoint⟩ := hmay _ ht
      obtain rfl := hm.property_inj hq hp hid
      rw [pointingAll_of_mem hnodup ht]
      exact (hpoint.resolving hm hp).kind q hp
    · rw [pointingAll_of_ne fun x hx he => hkey ⟨x.2, he ▸ hx⟩]
      exact .refl _

/-- What is expanded in a quiet round is what the choices come to. -/
theorem replaces_applyExpansions {expansions : List (PropertyId × List PropertyKind)}
    (hs : Sound rules true m) (hf : Fits m expansions)
    (hexact : ∀ p ∈ m.properties, ∀ kinds, expansions.lookup p.id = some kinds →
      ∃ a C chosen, p.kind = .propertyAlias a ∧ a.property = none ∧ a.cls.target = some C ∧
        Chooses rules m C p.location a chosen ∧ kinds = chosen.map fun x =>
          expandedAlias a x.1 x.2) :
    Replaces rules m (applyExpansions m expansions) := by
  have hkeeps := Keeps.applyExpansions hs hf
  refine .of_mapLists (spliced expansions) (fun o ps ho => hf.content_changedList hs.numbered ho)
    (fun p hp => ?_) hkeeps
  unfold spliced
  cases hl : expansions.lookup p.id with
  | none => exact .itself rfl (.refl _)
  | some kinds =>
    obtain ⟨a, C, chosen, hk, hnone, hC, hchooses, rfl⟩ := hexact p hp kinds hl
    refine .aliases hk hnone hC (hchooses.keeps hkeeps) ?_
    rw [List.map_map, List.map_map]
    rfl

/-- **A quiet round puts in place what the choices come to.** -/
theorem replaces_carryOut (hs : Sound rules true m) {pending : List Property}
    (hp : OpenAliases m pending) (hq : Quiet rules m pending) :
    Replaces rules m (carryOut m (stepsOf rules m pending)) := by
  have hids := hp.nodup_steps rules
  have hawait := awaits_stepsOf rules hp.mem hp.opened
  -- first the aliases are pointed, which leaves the choices as they are
  have hresolved : (stepsOf rules m pending).foldl resolveStep { model := m }
      = { model := pointAll m (targetsOf (stepsOf rules m pending)) } :=
    resolveSteps_of_acyclic hs hawait hids hq.acyclic _ [] rfl
  obtain ⟨hrun, hwait, -⟩ := run_resolved (s := { model := m }) hs hawait hids
  rw [hresolved] at hrun hwait
  have hsp : Sound rules true (pointAll m (targetsOf (stepsOf rules m pending))) :=
    Run.sound hrun hs
  have hg := resolving_pointingAll hs.numbered (allMayPoint_targetsOf hawait) (nodup_targetsOf hids)
  have hpointed : Replaces rules m (pointAll m (targetsOf (stepsOf rules m pending))) := by
    rw [pointAll_eq]
    exact .mapProperties hs.numbered hg
  refine hpointed.trans (replaces_applyExpansions hsp (fits_of_waiting hsp.numbered hwait) ?_)
  intro p' hp' kinds hl
  rw [pointAll_eq, Model.properties_mapProperties] at hp'
  obtain ⟨p, hmem, rfl⟩ := List.mem_map.mp hp'
  obtain ⟨x, hx, hid, hout⟩ := mem_expansionsOf hl
  obtain ⟨q, hpend, rfl⟩ := List.mem_map.mp hx
  obtain rfl : q = p := hs.numbered.property_inj (hp.mem q hpend) hmem (hid.trans (hg.id p))
  obtain ⟨a, C, chosen, hk, hnone, hC, hchooses, hkinds⟩ :=
    chooses_of_step hout (hq.problems q hpend)
  have hsame := (hg.kind q hmem).eq_of_choice (Or.inl hk) hnone
  refine ⟨a, C, chosen, hsame.trans hk, hnone, hC, ?_, hkinds⟩
  rw [hg.location]
  exact hchooses.keeps hpointed.keeps

/-- **As long as they report no error, the rounds over the aliases put in place what the choices
come to.** -/
theorem replaces_aliasRounds {D : Model} (hD : ReferencesKnown D) (fuel : Nat) : ∀ m : Model,
    Sound rules true m → Stems D m →
    (∀ d ∈ (aliasRounds rules fuel { model := m }).problems, d.isError = false) →
    Replaces rules m (aliasRounds rules fuel { model := m }).model := by
  induction fuel with
  | zero => exact fun m hs _ _ => .refl hs.numbered
  | succ fuel ih =>
    intro m hs hstems hnone
    have hsa := hs.resolveAssociations
    have hassociated : Replaces rules m (resolveAssociations rules true m) :=
      replaces_associationRounds _ hs
    rw [aliasRounds_succ] at hnone ⊢
    by_cases hne : pendingAliases { model := resolveAssociations rules true m } = []
    · rw [if_pos hne]
      exact hassociated
    · rw [if_neg hne] at hnone ⊢
      have hp := openAliases_pending
        (s := { model := resolveAssociations rules true m }) hsa.numbered
      have hrun := run_aliasRound (s := { model := resolveAssociations rules true m }) rules hsa
        hp.mem hp.opened hp.nodup
      obtain ⟨hq, hround⟩ := quiet_aliasRound hD hs hstems hne fun d hd =>
        hnone d (Run.problems_subset (run_aliasRounds fuel _ (Run.sound hrun hsa)) hd)
      have hreplaced : Replaces rules (resolveAssociations rules true m) (quietRound rules m) :=
        replaces_carryOut hsa hp hq
      rw [hround] at hnone hrun ⊢
      have hsound := Run.sound hrun hsa
      have hstem := Run.stems hrun hsa
      have hlater := ih (quietRound rules m) hsound
        ((hstems.trans (stems_associationRounds _ _ _ _)).trans hstem) hnone
      exact (hassociated.trans hreplaced).trans hlater

/-- **A link without errors puts in place what the choices of the model linked by name come to.** -/
theorem replaces_associated (h : m.AsLoaded) (hknown : ReferencesKnown (linkNames m).model)
    (hnone : ∀ d ∈ (expanded rules m).problems, d.isError = false) :
    Replaces rules (linkNames m).model (associated rules m) := by
  have hexpanded : Replaces rules (linkNames m).model (expanded rules m).model :=
    replaces_aliasRounds hknown (roundLimit m) (linkNames m).model (sound_named rules h)
      (.refl _) hnone
  exact hexpanded.trans (replaces_associationRounds _ (sound_expanded h).unsettled)

end Linking

end EntityModel
