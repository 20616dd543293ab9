import EntityModel.Linking.References
import EntityModel.Naming.Type
import EntityModel.Proofs.Linking.AliasProgress

/-!
# Where the properties of a linked model come from

Every property that the alias rounds leave in a model stems from one that was there before: it
stands at the same place of the source, belongs to the same owner and names the same classes and
domains (`Stem`).  None is lost but choices (`Lasting`), and an alias that is still open is the very
alias that was written.  The rounds give up places rather than properties, so what is reported for a
place is reported for every alias that stands there; `excused_of_open` is exact about that.
-/

namespace EntityModel.Linking

variable {rules : NamingRules}

/-- The property `p` is made of `d`. -/
structure Stem (d p : Property) : Prop where
  location : p.location = d.location
  owner : p.owner = d.owner
  references : propertyReferences p = propertyReferences d
  word : Model.asName p = Model.asName d
  opened : isOpenAlias p = true → p.kind = d.kind
  unresolved : ∀ cls r, p.kind.lookup? = some (cls, r) → r.target = none → p.kind = d.kind

theorem Stem.refl (p : Property) : Stem p p :=
  ⟨rfl, rfl, rfl, rfl, fun _ => rfl, fun _ _ _ _ => rfl⟩

theorem isOpenAlias_congr {p q : Property} (h : p.kind = q.kind) :
    isOpenAlias p = isOpenAlias q := by
  simp [isOpenAlias, Property.alias?, h]

theorem Stem.isOpenAlias {d p : Property} (h : Stem d p) (ho : isOpenAlias p = true) :
    isOpenAlias d = true := isOpenAlias_congr (h.opened ho) ▸ ho

theorem Stem.trans {d p q : Property} (h : Stem d p) (h' : Stem p q) : Stem d q where
  location := h'.location.trans h.location
  owner := h'.owner.trans h.owner
  references := h'.references.trans h.references
  word := h'.word.trans h.word
  opened ho := (h'.opened ho).trans (h.opened (h'.isOpenAlias ho))
  unresolved cls r hl ho := by
    have hq := h'.unresolved cls r hl ho
    exact hq.trans (h.unresolved cls r (hq ▸ hl) ho)

theorem stem_of_resolves {p q : Property} (hid : q.id = p.id) (hl : q.location = p.location)
    (h : p.kind.Resolves q.kind) : Stem p q where
  location := hl
  owner := congrArg PropertyId.owner hid
  references := by
    unfold propertyReferences
    generalize p.kind = k at h
    generalize q.kind = k' at h
    cases h <;> rfl
  word := by
    unfold Model.asName
    generalize p.kind = k at h
    generalize q.kind = k' at h
    cases h <;> rfl
  opened ho := by
    obtain ⟨a, hk, hopen⟩ := isOpenAlias_iff.mp ho
    generalize p.kind = k at h ⊢
    rw [hk] at h ⊢
    cases h with
    | refl => rfl
    | propertyAlias => simp [Reference.resolve] at hopen
  unresolved cls r hl ho := by
    generalize p.kind = k at h ⊢
    generalize q.kind = k' at h hl ⊢
    cases h with
    | refl => rfl
    | association | propertyAlias =>
      simp only [PropertyKind.lookup?, Option.map_some, Option.some.injEq, Prod.mk.injEq] at hl
      rw [← hl.2] at ho
      simp [Reference.resolve] at ho

theorem stem_of_content {p q : Property} (hc : q.content = p.content) (ho : q.owner = p.owner) :
    Stem p q := by
  have hkind : q.kind = p.kind := congrArg Prod.snd hc
  exact ⟨congrArg Prod.fst hc, ho, by simp [propertyReferences, hkind], by
    simp [Model.asName, hkind], fun _ => hkind, fun _ _ _ _ => hkind⟩

/-- Every property of the second model is made of one of the first. -/
def Stems (D m : Model) : Prop := ∀ p ∈ m.properties, ∃ d ∈ D.properties, Stem d p

theorem Stems.refl (m : Model) : Stems m m := fun p hp => ⟨p, hp, .refl p⟩

theorem Stems.trans {D m m' : Model} (h : Stems D m) (h' : Stems m m') : Stems D m' := by
  intro q hq
  obtain ⟨p, hp, hpq⟩ := h' q hq
  obtain ⟨d, hd, hdp⟩ := h p hp
  exact ⟨d, hd, hdp.trans hpq⟩

variable {m : Model}

theorem stems_mapProperties {g : Property → Property} (hg : m.Resolving g) :
    Stems m (m.mapProperties g) := by
  intro p' hp'
  rw [Model.properties_mapProperties, List.mem_map] at hp'
  obtain ⟨p, hp, rfl⟩ := hp'
  exact ⟨p, hp, stem_of_resolves (hg.id p) (hg.location p) (hg.kind p hp)⟩

theorem stems_associationRounds (rules : NamingRules) (settled : Bool) (fuel : Nat) (m : Model) :
    Stems m (associationRounds rules settled fuel m) := by
  induction fuel generalizing m with
  | zero => exact .refl _
  | succ fuel ih =>
    unfold associationRounds
    split
    · exact (stems_mapProperties (resolving_associationRound _ _ _)).trans (ih _)
    · exact .refl _

theorem mem_of_alias (rules : NamingRules) (settled : Bool) (fuel : Nat) (m : Model) {p : Property}
    (ha : p.alias?.isSome = true) (hp : p ∈ (associationRounds rules settled fuel m).properties) :
    p ∈ m.properties := by
  induction fuel generalizing m with
  | zero => exact hp
  | succ fuel ih =>
    unfold associationRounds at hp
    split at hp
    · have hround := ih _ hp
      rw [associationRound, Model.properties_mapProperties, List.mem_map] at hround
      obtain ⟨q, hq, rfl⟩ := hround
      rcases withAssociationTarget_cases m rules settled q with he |
        ⟨a, r, C, t, _, _, _, _, _, _, he⟩
      · rwa [he]
      · rw [he] at ha
        simp [Property.alias?] at ha
    · exact hp

theorem Fits.stems {expansions : List (PropertyId × List PropertyKind)} (h : Fits m expansions)
    (hm : m.Numbered) : Stems m (applyExpansions m expansions) := by
  intro p' hp'
  have hnum := numbered_applyExpansions hm expansions
  obtain ⟨o, ps', ho', hps'⟩ := Model.mem_properties_iff.mp hp'
  have howner' : p'.owner = o := (hnum.properties o ps' ho').owner_eq hps'
  rw [applyExpansions_eq_mapLists, Model.owned_mapLists, List.mem_map] at ho'
  obtain ⟨⟨o', ps⟩, ho, he⟩ := ho'
  obtain ⟨rfl, rfl⟩ := Prod.mk.inj he
  have hc := List.mem_map_of_mem (f := Property.content) hps'
  rw [h.content_changedList hm ho, List.mem_map] at hc
  obtain ⟨q, hq, hcontent⟩ := hc
  obtain ⟨p, hp, hq⟩ := List.mem_flatMap.mp hq
  have hmem := Model.mem_properties_iff.mpr ⟨o', ps, ho, hp⟩
  have howner : p'.owner = p.owner := howner'.trans ((hm.properties o' ps ho).owner_eq hp).symm
  refine ⟨p, hmem, ?_⟩
  rcases h.mem_spliced hmem hq with rfl | ⟨_, hl, _, a, t, name, _, _, hk, _, hqk⟩
  · exact stem_of_content hcontent.symm howner
  · obtain ⟨hloc, hkind⟩ := Prod.mk.inj hcontent
    refine ⟨hloc.symm.trans hl, howner, ?_, ?_, fun ho => ?_, fun cls r hlook ho => ?_⟩
    · simp [propertyReferences, ← hkind, hqk, hk, expandedAlias]
    · simp [Model.asName, ← hkind, hqk, hk, expandedAlias]
    · rw [isOpenAlias_congr hkind.symm] at ho
      simp [isOpenAlias, Property.alias?, hqk, expandedAlias] at ho
    · simp only [← hkind, hqk, PropertyKind.lookup?, expandedAlias, Option.map_some,
        Option.some.injEq, Prod.mk.injEq] at hlook
      rw [← hlook.2] at ho
      simp at ho

theorem Move.stems {s s' : AliasState} (h : Move rules s s') (hs : Sound rules true s.model) :
    Stems s.model s'.model := by
  cases h with
  | associate => exact stems_mapProperties (resolving_associationRound _ _ _)
  | report | giveUp => exact .refl _
  | point hp hmay => exact stems_mapProperties (hmay.resolving hs.numbered hp)
  | splice hf => exact hf.stems hs.numbered

theorem Run.stems {s s' : AliasState} (h : Run rules s s') (hs : Sound rules true s.model) :
    Stems s.model s'.model := by
  induction h with
  | refl => exact .refl _
  | tail hrun hmove ih => exact ih.trans (hmove.stems (Run.sound hrun hs))

/-- Every property of the first model is still there in the second, unless it is a choice of the
properties of a class that is known. -/
def Lasting (D m : Model) : Prop :=
  ∀ d ∈ D.properties, (∃ p ∈ m.properties, Stem d p) ∨
    ∃ a, d.kind = .propertyAlias a ∧ a.property = none ∧ a.cls.target.isSome = true

theorem Lasting.refl (m : Model) : Lasting m m := fun p hp => Or.inl ⟨p, hp, .refl p⟩

theorem Lasting.trans {D m m' : Model} (h : Lasting D m) (h' : Lasting m m') : Lasting D m' := by
  intro d hd
  rcases h d hd with ⟨p, hp, hdp⟩ | hchoice
  · rcases h' p hp with ⟨q, hq, hpq⟩ | ⟨a, hk, hnone, hknown⟩
    · exact Or.inl ⟨q, hq, hdp.trans hpq⟩
    · -- what is a choice later was written as one
      have hopen : isOpenAlias p = true := isOpenAlias_iff.mpr ⟨a, hk, by rw [hnone]; rfl⟩
      exact Or.inr ⟨a, (hdp.opened hopen).symm.trans hk, hnone, hknown⟩
  · exact Or.inr hchoice

theorem lasting_mapProperties {g : Property → Property} (hg : m.Resolving g) :
    Lasting m (m.mapProperties g) := by
  intro p hp
  refine Or.inl ⟨g p, ?_, stem_of_resolves (hg.id p) (hg.location p) (hg.kind p hp)⟩
  rw [Model.properties_mapProperties]
  exact List.mem_map_of_mem hp

theorem lasting_associationRounds (rules : NamingRules) (settled : Bool) (fuel : Nat) (m : Model) :
    Lasting m (associationRounds rules settled fuel m) := by
  induction fuel generalizing m with
  | zero => exact .refl _
  | succ fuel ih =>
    unfold associationRounds
    split
    · exact (lasting_mapProperties (resolving_associationRound _ _ _)).trans (ih _)
    · exact .refl _

theorem Fits.lasting {expansions : List (PropertyId × List PropertyKind)} (h : Fits m expansions)
    (hm : m.Numbered) : Lasting m (applyExpansions m expansions) := by
  intro p hp
  cases hl : expansions.lookup p.id with
  | some kinds =>
    obtain ⟨a, C, hk, hnone, hC, -⟩ := h.expands p hp kinds hl
    exact Or.inr ⟨a, hk, hnone, by rw [hC]; rfl⟩
  | none =>
    obtain ⟨o, ps, ho, hps⟩ := Model.mem_properties_iff.mp hp
    have hspliced : p ∈ ps.flatMap (spliced expansions) :=
      List.mem_flatMap.mpr ⟨p, hps, by rw [spliced, hl]; exact List.mem_singleton_self p⟩
    have hc := List.mem_map_of_mem (f := Property.content) hspliced
    rw [← h.content_changedList hm ho, List.mem_map] at hc
    obtain ⟨p', hp', hcontent⟩ := hc
    have ho' := List.mem_map_of_mem (f := fun x => (x.1, changedList
      (fun owner ps => renumber owner (ps.flatMap (spliced expansions)))
        (fun p => (spliced expansions p).headD p)
      x.1 x.2)) ho
    rw [← Model.owned_mapLists, ← applyExpansions_eq_mapLists] at ho'
    have howner' := ((numbered_applyExpansions hm expansions).properties _ _ ho').owner_eq hp'
    refine Or.inl ⟨p', Model.mem_properties_iff.mpr ⟨o, _, ho', hp'⟩, stem_of_content hcontent ?_⟩
    exact howner'.trans ((hm.properties o ps ho).owner_eq hps).symm

theorem Move.lasting {s s' : AliasState} (h : Move rules s s') (hs : Sound rules true s.model) :
    Lasting s.model s'.model := by
  cases h with
  | associate => exact lasting_mapProperties (resolving_associationRound _ _ _)
  | report | giveUp => exact .refl _
  | point hp hmay => exact lasting_mapProperties (hmay.resolving hs.numbered hp)
  | splice hf => exact hf.lasting hs.numbered

theorem Run.lasting {s s' : AliasState} (h : Run rules s s') (hs : Sound rules true s.model) :
    Lasting s.model s'.model := by
  induction h with
  | refl => exact .refl _
  | tail hrun hmove ih => exact ih.trans (hmove.lasting (Run.sound hrun hs))

theorem Excused.congr {problems : List Diagnostic} {p q : Property} (h : Excused problems p)
    (hl : q.location = p.location) (hk : q.kind = p.kind) : Excused problems q := by
  unfold Excused at h ⊢
  rwa [hl, hk]

/-- Every place that is given up belongs to an open alias of the model at the start that is
excused. -/
theorem Run.given {s s' : AliasState} (h : Run rules s s') (hs : Sound rules true s.model)
    (hnone : s.failed = []) : ∀ ℓ ∈ s'.failed, ∃ d ∈ s.model.properties,
      d.location = ℓ ∧ isOpenAlias d = true ∧ Excused s'.problems d := by
  induction h with
  | refl => rw [hnone]; simp
  | tail hrun hmove ih =>
    have hgrows := Run.problems_subset (.single hmove)
    have hold : ∀ ℓ ∈ _, ∃ d ∈ s.model.properties, d.location = ℓ ∧ isOpenAlias d = true ∧
        Excused _ d := fun ℓ hℓ => by
      obtain ⟨d, hd, hl, ho, he⟩ := ih ℓ hℓ
      exact ⟨d, hd, hl, ho, he.mono hgrows⟩
    cases hmove with
    | giveUp hp ho he =>
      intro ℓ hℓ
      rcases List.mem_append.mp hℓ with hℓ | hℓ
      · exact hold ℓ hℓ
      · obtain ⟨d, hd, hstem⟩ := Run.stems hrun hs _ hp
        rw [List.mem_singleton.mp hℓ]
        exact ⟨d, hd, hstem.location.symm, hstem.isOpenAlias ho,
          he.congr hstem.location.symm (hstem.opened ho).symm⟩
    | _ => exact hold

theorem Reported.congr {p q : Property} {d : Diagnostic} (h : Reported p d)
    (hl : q.location = p.location) (hk : q.kind = p.kind) : Reported q d := by
  refine ⟨h.kind, ?_⟩
  rw [reportPlaces, Property.alias?, hl, hk]
  exact h.place

/-- Whatever a run reports is about an open alias of the model at the start. -/
theorem Run.reported {s s' : AliasState} (h : Run rules s s') (hs : Sound rules true s.model)
    (hnone : s.problems = []) : ∀ x ∈ s'.problems, ∃ d ∈ s.model.properties,
      isOpenAlias d = true ∧ Reported d x := by
  induction h with
  | refl => rw [hnone]; simp
  | tail hrun hmove ih =>
    cases hmove with
    | report hnew =>
      intro x hx
      rcases List.mem_append.mp hx with hx | hx
      · exact ih x hx
      · obtain ⟨p, hp, ho, hreported⟩ := hnew x hx
        obtain ⟨d, hd, hstem⟩ := Run.stems hrun hs p hp
        exact ⟨d, hd, hstem.isOpenAlias ho,
          hreported.congr hstem.location.symm (hstem.opened ho).symm⟩
    | _ => exact ih

/-- **An alias that is open in the end is excused, unless another open alias was written at its very
place.** -/
theorem excused_of_open (h : Sound rules true m) {p : Property}
    (hp : p ∈ (resolveAliases rules m).model.properties) (ho : isOpenAlias p = true) :
    Excused (resolveAliases rules m).problems p ∨
      ∃ d ∈ m.properties, ∃ d' ∈ m.properties, d.id ≠ d'.id ∧ Stem d p ∧ isOpenAlias d' = true ∧
        d'.location = p.location := by
  have hrun := run_resolveAliases h
  obtain ⟨d, hd, hstem⟩ := Run.stems hrun h p hp
  obtain ⟨d', hd', hl, ho', he⟩ := Run.given hrun h rfl _ (mem_failed_of_open h hp ho)
  by_cases hid : d.id = d'.id
  · obtain rfl := h.numbered.property_inj hd hd' hid
    exact Or.inl (he.congr hl.symm (hstem.opened ho))
  · exact Or.inr ⟨d, hd, d', hd', hid, hstem, ho', hl⟩

end EntityModel.Linking
