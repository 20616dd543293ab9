import EntityModel.Proofs.Linking.Accounted

/-!
# Aliases that are declared in a circle

An alias of a class stands for the property that its name means there, and that property may again
be declared as an alias.  `AliasOf` says when a property of a class is, by its declaration, an alias
of a property of another class, be it that the alias names it or that it stands for a choice; if
such declarations lead back to where they started, linking finds an error (`exists_error_of_cycle`).

Without errors every alias would be resolved.  If one of the aliases on the way names its property,
then the aliases that it comes to point to one another without end, which the graph of aliases does
not allow.  If all of them are choices, then each waits for the class of the next one to hold no
choice, and none is ever put in place.
-/

namespace EntityModel.Linking

open Relation Naming

variable {rules : NamingRules} {m : Model}

/-- The alias names the property, or stands for a choice that takes it in. -/
def takes (a : AliasProperty) (name : String) : Bool :=
  match a.property with
  | some r => r.text == name
  | none => if a.only.isEmpty then a.exclude.all (·.value != name) else a.only.any (·.value == name)

/-- The name by which the alias stands for a property of the name. -/
def calledAs (m : Model) (a : AliasProperty) (name : String) : String :=
  match a.name with
  | some n => n.value
  | none =>
    let className := ((a.cls.target.bind m.cls?).map (·.name.value)).getD ""
    affixText className a.before ++ name ++ affixText className a.after

/-- The property of the class `x.1` that goes by the name `x.2` is declared as an alias of the one
of `y.1` that goes by `y.2`: such an alias is declared in the model linked by name, and nothing else
of the class goes by the name once the model is linked. -/
structure AliasOf (rules : NamingRules) (m : Model) (x y : ClassId × String) : Prop where
  declared : ∃ p ∈ (linkNames m).model.classProperties x.1, ∃ a ∈ p.alias?,
    a.cls.target = some y.1 ∧ takes a y.2 ∧ calledAs (linkNames m).model a y.2 = x.2
  meant : ∀ q ∈ (m.link rules).model.classProperties x.1,
    (m.link rules).model.propertyName? rules q.id = some x.2 →
      ∃ a ∈ q.alias?, a.cls.target = some y.1 ∧ ∃ r ∈ a.property, r.text = y.2

instance (rules : NamingRules) (m : Model) (x y : ClassId × String) :
    Decidable (AliasOf rules m x y) :=
  decidable_of_iff (_ ∧ _) ⟨fun h => ⟨h.1, h.2⟩, fun h => ⟨h.declared, h.meant⟩⟩

theorem mem_alias?_iff {p : Property} {a : AliasProperty} :
    a ∈ p.alias? ↔ p.kind = .propertyAlias a := by
  cases hk : p.kind <;> simp [Property.alias?, hk]

/-- The declarations lead back to where they started. -/
def Circular (rules : NamingRules) (m : Model) (x : ClassId × String) : Prop :=
  TransGen (AliasOf rules m) x x

theorem Circular.next {x : ClassId × String} (h : Circular rules m x) :
    ∃ y, AliasOf rules m x y ∧ Circular rules m y := by
  obtain ⟨y, hxy, hyx⟩ := TransGen.head'_iff.mp h
  exact ⟨y, hxy, TransGen.tail' hyx hxy⟩

/-! ### Aliases that name their property -/

/-- The property, which is an alias, stands for one that is declared in a circle. -/
def LeadsInCircle (rules : NamingRules) (m : Model) (id : PropertyId) : Prop :=
  ∃ q ∈ (m.link rules).model.properties, q.id = id ∧ ∃ a r C, q.kind = .propertyAlias a ∧
    a.cls.target = some C ∧ a.property = some r ∧ Circular rules m (C, r.text)

/-- Where no alias is open, one that leads in a circle points to one that does so too. -/
theorem LeadsInCircle.points (h : m.AsLoaded)
    (hclosed : ∀ p ∈ (m.link rules).model.properties, isOpenAlias p = false) {id : PropertyId}
    (hc : LeadsInCircle rules m id) :
    ∃ t, Points (m.link rules).model id t ∧ LeadsInCircle rules m t := by
  have hsound := sound_link rules h
  obtain ⟨q, hq, rfl, a, r, C, hk, hC, hr, hcircular⟩ := hc
  cases ht : r.target with
  | none =>
    have hopen : isOpenAlias q = true := isOpenAlias_iff.mpr ⟨a, hk, by simp [hr, ht]⟩
    rw [hclosed q hq] at hopen
    exact absurd hopen (by simp)
  | some t =>
    have hl : q.kind.lookup? = some (a.cls, r) := by simp [hk, PropertyKind.lookup?, hr]
    obtain ⟨C', hC', -, q', hq', rfl, hname⟩ := hsound.grounded q hq a.cls r hl t ht
    obtain rfl : C = C' := Option.some.inj (hC.symm.trans hC')
    refine ⟨q'.id, ?_, ?_⟩
    · rw [Points, aliasTarget_of_mem hsound.numbered hq]
      exact resolvedTo_eq_some.mpr ⟨a, r, hk, hr, ht⟩
    · obtain ⟨⟨C', n⟩, hedge, hnext⟩ := hcircular.next
      obtain ⟨a', ha', hC', r', hr', rfl⟩ := hedge.meant q' hq' hname
      exact ⟨q', hsound.numbered.mem_of_classProperties hq', rfl, a', r', C',
        mem_alias?_iff.mp ha', hC', hr', hnext⟩

/-- No alias leads in a circle where none is open: its chain would have no end. -/
theorem not_leadsInCircle (h : m.AsLoaded)
    (hclosed : ∀ p ∈ (m.link rules).model.properties, isOpenAlias p = false) (id : PropertyId) :
    ¬ LeadsInCircle rules m id := by
  intro hc
  have hsound := sound_link rules h
  have hfirst := hc
  obtain ⟨p, hp, rfl, -⟩ := hfirst
  obtain ⟨chain, q, hq, hwalk, hend⟩ :=
    hsound.acyclic.exists_end hsound.numbered (fun _ _ => hsound.live_of_points) hp
  have hall : ∀ id ∈ chain, LeadsInCircle rules m id := by
    refine hwalk.steps.induction (LeadsInCircle rules m) chain (fun a b hab ha => ?_) fun hne => ?_
    · obtain ⟨t, hat, ht⟩ := ha.points h hclosed
      obtain rfl : t = b := Option.some.inj (hat.symm.trans hab)
      exact ht
    · have hhead := hwalk.head
      rw [List.head?_eq_some_head hne] at hhead
      rw [Option.some.inj hhead]
      exact hc
  obtain ⟨t, hpoints, -⟩ := (hall q.id (List.mem_of_getLast? hwalk.last)).points h hclosed
  rw [Points, aliasTarget_of_mem hsound.numbered hq, hend] at hpoints
  exact absurd hpoints (by simp)

/-! ### What no expansion takes away -/

/-- The property is no choice, or a choice of a class that still holds one. -/
def Waits (m : Model) (p : Property) : Prop :=
  ∀ a D, p.kind = .propertyAlias a → a.property = none → a.cls.target = some D →
    isSettled m D = false

theorem stays_mapProperties {M : Model} {g : Property → Property} (hM : M.Numbered)
    (hg : M.Resolving g) {C : ClassId} {p : Property} (hp : p ∈ M.classProperties C) :
    ∃ p' ∈ (M.mapProperties g).classProperties C, p.kind.Resolves p'.kind := by
  refine ⟨g p, ?_, hg.kind p (hM.mem_of_classProperties hp)⟩
  rw [Model.classProperties_mapProperties]
  exact List.mem_map_of_mem hp

/-- **A property that waits stays in its class.** -/
theorem Move.stays {s s' : AliasState} (h : Move rules s s')
    (hs : Sound rules true s.model) {C : ClassId}
    {p : Property} (hp : p ∈ s.model.classProperties C) (hwaits : Waits s.model p) :
    ∃ p' ∈ s'.model.classProperties C, p.kind.Resolves p'.kind := by
  cases h with
  | associate => exact stays_mapProperties hs.numbered (resolving_associationRound _ _ _) hp
  | report | giveUp => exact ⟨p, hp, .refl _⟩
  | point hq hmay => exact stays_mapProperties hs.numbered (hmay.resolving hs.numbered hq) hp
  | @splice expansions hf =>
    have halone : spliced expansions p = [p] := by
      unfold spliced
      cases hl : expansions.lookup p.id with
      | none => rfl
      | some kinds =>
        obtain ⟨a, D, hk, hnone, hD, hsettled, -⟩ :=
          hf.expands p (hs.numbered.mem_of_classProperties hp) kinds hl
        rw [hwaits a D hk hnone hD] at hsettled
        exact absurd hsettled (by simp)
    have hmem : p ∈ (s.model.classProperties C).flatMap (spliced expansions) :=
      List.mem_flatMap.mpr ⟨p, hp, by simp [halone]⟩
    have hcontent := List.mem_map_of_mem (f := Property.content) hmem
    rw [← content_classProperties, List.mem_map] at hcontent
    obtain ⟨p', hp', he⟩ := hcontent
    have hkind : p'.kind = p.kind := congrArg Prod.snd he
    exact ⟨p', hp', hkind ▸ .refl _⟩

theorem stays_associationRounds {settled : Bool} (fuel : Nat) {M : Model}
    (h : Sound rules settled M) {C : ClassId} {p : Property} (hp : p ∈ M.classProperties C) :
    ∃ p' ∈ (associationRounds rules settled fuel M).classProperties C, p.kind.Resolves p'.kind := by
  induction fuel generalizing M p with
  | zero => exact ⟨p, hp, .refl _⟩
  | succ fuel ih =>
    unfold associationRounds
    split
    · obtain ⟨q, hq, hpq⟩ :=
        stays_mapProperties h.numbered (resolving_associationRound _ rules settled) hp
      obtain ⟨p', hp', hqp⟩ := ih h.associationRound hq
      exact ⟨p', hp', hpq.trans hqp⟩
    · exact ⟨p, hp, .refl _⟩

/-- After the aliases are resolved every property stays. -/
theorem stays_link (h : m.AsLoaded) {C : ClassId} {p : Property}
    (hp : p ∈ (expanded rules m).model.classProperties C) :
    ∃ p' ∈ (m.link rules).model.classProperties C, p.kind.Resolves p'.kind := by
  rw [link_model, resolvePropertyReferences_eq, Model.classProperties_mapClasses]
  · exact stays_associationRounds _ (sound_expanded h).unsettled hp
  · exact surrounding_resolveClassProperties _

theorem named_stays {s s' : AliasState} (h : Run rules s s') (hs : Sound rules true s.model)
    {C : ClassId} {p : Property} (hp : p ∈ s.model.classProperties C)
    (hnamed : p.standsForChoice = false) :
    ∃ p' ∈ s'.model.classProperties C, p.kind.Resolves p'.kind := by
  induction h with
  | refl => exact ⟨p, hp, .refl _⟩
  | tail hrun hmove ih =>
    obtain ⟨q, hq, hpq⟩ := ih
    refine (hmove.stays (Run.sound hrun hs) hq ?_).imp fun p' => And.imp_right hpq.trans
    intro a D hk hnone
    have hchoice : q.standsForChoice = true := Property.standsForChoice_iff.mpr ⟨a, hk, hnone⟩
    rw [hpq.standsForChoice, hnamed] at hchoice
    exact absurd hchoice (by simp)

/-! ### Choices that wait for one another -/

/-- For every alias into a circle its class holds a choice of the class that it points into. -/
def Stuck (rules : NamingRules) (m M : Model) : Prop :=
  ∀ x y, AliasOf rules m x y → Circular rules m y → ∃ p ∈ M.classProperties x.1, ∃ a,
    p.kind = .propertyAlias a ∧ a.property = none ∧ a.cls.target = some y.1

theorem Stuck.not_settled {M : Model} (h : Stuck rules m M) {x : ClassId × String}
    (hx : Circular rules m x) : isSettled M x.1 = false := by
  obtain ⟨y, hedge, hy⟩ := hx.next
  obtain ⟨p, hp, a, hk, hnone, -⟩ := h x y hedge hy
  rw [Bool.eq_false_iff]
  intro hsettled
  have hchoice : p.standsForChoice = true := Property.standsForChoice_iff.mpr ⟨a, hk, hnone⟩
  rw [isSettled_iff.mp hsettled p hp] at hchoice
  exact absurd hchoice (by simp)

theorem eq_of_resolves_choice {k : PropertyKind} {a : AliasProperty}
    (h : (PropertyKind.propertyAlias a).Resolves k) (hnone : a.property = none) :
    k = .propertyAlias a := by
  cases h with
  | refl => rfl
  | propertyAlias id ha => simp [hnone] at ha

/-- Wherever waiting properties stay, choices that wait for one another do. -/
theorem Stuck.of_stays {M M' : Model} (h : Stuck rules m M)
    (hstays : ∀ C p, p ∈ M.classProperties C → Waits M p →
      ∃ p' ∈ M'.classProperties C, p.kind.Resolves p'.kind) : Stuck rules m M' := by
  intro x y hedge hy
  obtain ⟨p, hp, a, hk, hnone, hD⟩ := h x y hedge hy
  have hwaits : Waits M p := by
    intro a' D hk' _ hD'
    obtain rfl : a = a' := by simpa [hk] using hk'
    obtain rfl : y.1 = D := Option.some.inj (hD.symm.trans hD')
    exact h.not_settled hy
  obtain ⟨p', hp', hres⟩ := hstays x.1 p hp hwaits
  rw [hk] at hres
  exact ⟨p', hp', a, eq_of_resolves_choice hres hnone, hnone, hD⟩

theorem Stuck.run {s s' : AliasState} (h : Stuck rules m s.model) (hrun : Run rules s s')
    (hs : Sound rules true s.model) : Stuck rules m s'.model := by
  induction hrun with
  | refl => exact h
  | tail hrun hmove ih => exact ih.of_stays fun C p hp => hmove.stays (Run.sound hrun hs) hp

/-- **Where aliases are declared in a circle, linking finds an error.** -/
theorem exists_error_of_cycle (h : m.AsLoaded) {x : ClassId × String} (hx : Circular rules m x) :
    ∃ d ∈ (m.link rules).problems, d.isError = true := by
  by_contra! hnone
  have hclosed : ∀ p ∈ (m.link rules).model.properties, isOpenAlias p = false := fun p hp =>
    closed_of_no_errors h (fun d hd => by simpa using hnone d hd) hp
  have hnumbered := (sound_link rules h).numbered
  by_cases hnamed : ∃ y z, AliasOf rules m y z ∧ Circular rules m z ∧
      ∃ p ∈ (linkNames m).model.classProperties y.1, ∃ a r, p.kind = .propertyAlias a ∧
        a.cls.target = some z.1 ∧ a.property = some r ∧ r.text = z.2
  · -- an alias on the way names its property, and does so at the end
    obtain ⟨y, ⟨D, name⟩, -, hz, p, hp, a, r, hk, hD, hr, rfl⟩ := hnamed
    obtain ⟨q, hq, hpq⟩ := named_stays (run_resolveAliases (sound_named rules h))
      (sound_named rules h) hp (by simp [Property.standsForChoice, Property.alias?, hk,
        AliasProperty.needsExpansion, hr])
    obtain ⟨p', hp', hqp⟩ := stays_link h hq
    have hres := hpq.trans hqp
    have hmem := hnumbered.mem_of_classProperties hp'
    refine not_leadsInCircle h hclosed p'.id ⟨p', hmem, rfl, ?_⟩
    rw [hk] at hres
    generalize p'.kind = k at hres ⊢
    cases hres with
    | refl => exact ⟨a, r, D, rfl, hD, hr, hz⟩
    | propertyAlias t ha =>
      obtain rfl := Option.some.inj (hr.symm.trans ha)
      exact ⟨_, _, D, rfl, hD, rfl, hz⟩
  · -- all of them are choices, and none is ever put in place
    have hstuck : Stuck rules m (linkNames m).model := by
      intro y z hedge hz
      obtain ⟨p, hp, a, ha, hD, htakes, -⟩ := hedge.declared
      have hk := mem_alias?_iff.mp ha
      cases hr : a.property with
      | none => exact ⟨p, hp, a, hk, hr, hD⟩
      | some r =>
        have htext : r.text = z.2 := by simpa [takes, hr] using htakes
        exact absurd ⟨y, z, hedge, hz, p, hp, a, r, hk, hD, hr, htext⟩ hnamed
    have hend : Stuck rules m (m.link rules).model :=
      (hstuck.run (run_resolveAliases (sound_named rules h)) (sound_named rules h)).of_stays
        fun C p hp _ => stays_link h hp
    obtain ⟨y, hedge, hy⟩ := hx.next
    obtain ⟨p, hp, a, hk, hnone', -⟩ := hend x y hedge hy
    have hopen : isOpenAlias p = true := isOpenAlias_iff.mpr ⟨a, hk, by simp [hnone']⟩
    rw [hclosed p (hnumbered.mem_of_classProperties hp)] at hopen
    exact absurd hopen (by simp)

end EntityModel.Linking
