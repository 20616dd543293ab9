import EntityModel.Proofs.Linking.AliasCycles
import EntityModel.Proofs.Linking.Readiness
import EntityModel.Proofs.Linking.ReportKinds

/-!
# What blocks an alias

An alias is blocked as long as its class holds a property that is not ready.  Where the rounds have
come to a stop (`Halt`), such a property is not ready for one of four reasons: it hangs on a
property of a class that follows, which is not ready either; something else than a cycle was found
wrong with it, or with an alias that shares its place; or its name is derived along more properties
than are followed.  If no class comes back to itself, going from class to class comes to an end, and
there it is one of the other reasons (`Halt.obstructed_of_unready`).
-/

namespace EntityModel

open Relation Naming Linking

/-! ### What is found wrong with a property -/

/-- Something else than a cycle of aliases is found wrong where the property was written: at its
place, or at something that it refers to. -/
def Model.Faulted (D : Model) (problems : List Diagnostic) (p : Property) : Prop :=
  ∃ w ∈ D.properties, w.location = p.location ∧ ∃ d ∈ problems, d.isError = true ∧
    d.kind ≠ .circularAlias ∧
    (d.location = w.location ∨ ∃ x ∈ w.heldReferences, d.location = x.location)

/-- The property is not ready, and not because of another one: something is found wrong with it, or
its name is derived along too many properties. -/
structure Model.Obstructed (D : Model) (problems : List Diagnostic)
    (rules : NamingRules) (m : Model) (p : Property) : Prop where
  unready : m.Unready rules p
  cause : D.Faulted problems p ∨ m.LeadsOn m.nameStep (chainLimit + 1) p.id

theorem Model.Faulted.mono {D : Model} {problems problems' : List Diagnostic} {p : Property}
    (h : D.Faulted problems p) (hle : ∀ d ∈ problems, d.isError = true → d ∈ problems') :
    D.Faulted problems' p := by
  obtain ⟨w, hw, hl, d, hd, herror, hrest⟩ := h
  exact ⟨w, hw, hl, d, hle d hd herror, herror, hrest⟩

theorem Model.Faulted.congr {D : Model} {problems : List Diagnostic} {p q : Property}
    (h : D.Faulted problems p) (hl : q.location = p.location) : D.Faulted problems q := by
  obtain ⟨w, hw, hw', hrest⟩ := h
  exact ⟨w, hw, hw'.trans hl.symm, hrest⟩

theorem exists_held_of_reference {p : Property} {x : EntityReference}
    (hx : x ∈ propertyReferences p) :
    ∃ y ∈ p.heldReferences, x.location = y.location := by
  obtain ⟨id, l, k⟩ := p
  cases k with
  | regular a | association a | propertyAlias a =>
    obtain rfl := List.mem_singleton.mp hx
    exact ⟨_, List.mem_map_of_mem List.mem_cons_self, rfl⟩
  | composition a =>
    rcases List.mem_cons.mp hx with rfl | hx
    · exact ⟨_, List.mem_map_of_mem List.mem_cons_self, rfl⟩
    · obtain ⟨r, hr, rfl⟩ := List.mem_map.mp hx
      exact ⟨_, List.mem_map_of_mem (List.mem_cons_of_mem _ (List.mem_map_of_mem hr)), rfl⟩

theorem exists_held_of_lookup {p : Property} {cls : ClassReference} {r : PropertyReference}
    (hl : p.kind.lookup? = some (cls, r)) : ∃ y ∈ p.heldReferences, r.location = y.location := by
  obtain ⟨id, l, k⟩ := p
  cases k with
  | regular | composition => simp [PropertyKind.lookup?] at hl
  | association a | propertyAlias a =>
    obtain ⟨r', hr, he⟩ := Option.map_eq_some_iff.mp hl
    obtain ⟨rfl, rfl⟩ := Prod.mk.inj he
    exact ⟨_, List.mem_map_of_mem
      (List.mem_cons_of_mem _ (List.mem_map_of_mem (Option.mem_toList.mpr hr))), rfl⟩

/-- Looking up names leaves references where they stand. -/
theorem heldLocations_resolveProperty (m : Model) (f : ModelFile) (p : Property) :
    (resolveProperty m f p).heldReferences.map HeldReference.location
      = p.heldReferences.map HeldReference.location := by
  obtain ⟨id, l, k⟩ := p
  cases k with
  | composition c =>
    cases hd : c.domain <;>
      simp [resolveProperty, resolveKind, Property.heldReferences, Reference.held,
        resolveBy_location, hd]
  | _ => simp [resolveProperty, resolveKind, Property.heldReferences, Reference.held,
    resolveBy_location]

namespace Linking

variable {rules : NamingRules} {m : Model}

/-- What is found wrong where a property of the model linked by name stands, is so where it was
drafted. -/
theorem faulted_of_named {problems : List Diagnostic} {p : Property}
    (h : (linkNames m).model.Faulted problems p) : m.Faulted problems p := by
  obtain ⟨w, hw, hl, d, hd, herror, hkind, hat⟩ := h
  obtain ⟨w₀, hw₀, a, -, rfl⟩ := exists_draft_property hw
  refine ⟨w₀, hw₀, hl, d, hd, herror, hkind, hat.imp_right ?_⟩
  rintro ⟨x, hx, he⟩
  have hmem := List.mem_map_of_mem (f := HeldReference.location) hx
  rw [heldLocations_resolveProperty, List.mem_map] at hmem
  obtain ⟨y, hy, hxy⟩ := hmem
  exact ⟨y, hy, he.trans hxy.symm⟩

theorem not_circular_of_named {d : Diagnostic} (hd : d ∈ (linkNames m).problems) :
    d.kind ≠ .circularAlias := by
  intro hk
  have hmem := kinds_linkNames m d hd
  rw [hk] at hmem
  exact absurd hmem (by decide)

/-- What a property refers to by name is there in the end, or the property is faulted. -/
theorem live_or_faulted (rules : NamingRules) (h : m.AsLoaded) {M : Model}
    (hstems : Stems (linkNames m).model M) {p : Property} (hp : p ∈ M.properties)
    {x : EntityReference} (hx : x ∈ propertyReferences p) :
    (∃ e, x.target = some e ∧ e.Live (m.link rules).model) ∨
      (linkNames m).model.Faulted (m.link rules).problems p := by
  obtain ⟨d, hd, hstem⟩ := hstems p hp
  rw [hstem.references] at hx
  obtain ⟨n, hn, hdn⟩ := Model.exists_file_of_mem hd
  refine (resolved_or_missed rules h hn (mem_fileReferences hdn hx)).imp_right ?_
  rintro ⟨q, hq, herror, hat⟩
  have hnamed : q ∈ (linkNames m).problems := by
    show q ∈ _ ++ referenceProblems (namedModel m) ++ _
    simp [hq]
  refine ⟨d, hd, hstem.location.symm, q, List.mem_append_left _ (List.mem_append_left _
    (List.mem_append_left _ hnamed)), herror, not_circular_of_named hnamed, Or.inr ?_⟩
  obtain ⟨y, hy, hxy⟩ := exists_held_of_reference hx
  exact ⟨y, hy, hat.trans hxy⟩

/-- An alias that is excused by anything but a cycle is faulted. -/
theorem faulted_of_excused (h : m.AsLoaded) {d : Property} (hd : d ∈ (linkNames m).model.properties)
    {problems : List Diagnostic} (hexc : Excused problems d) (hplain : Plain problems)
    (hsub : problems ⊆ (expanded rules m).problems) :
    (linkNames m).model.Faulted (m.link rules).problems d := by
  rcases hexc with ⟨a, hk, hC⟩ | ⟨x, hx, herror, hat⟩
  · rcases live_or_faulted rules h (.refl _) hd (x := .cls a.cls)
      (by simp [propertyReferences, hk]) with ⟨e, he, -⟩ | hfaulted
    · simp [EntityReference.target, hC] at he
    · exact hfaulted
  · refine ⟨d, hd, rfl, x, ?_, herror, hplain x hx, hat.imp_right ?_⟩
    · rw [link_problems]
      simp [hsub hx]
    · rintro ⟨a, r, hk, hr, he⟩
      have hl : d.kind.lookup? = some (a.cls, r) := by simp [hk, PropertyKind.lookup?, hr]
      obtain ⟨y, hy, hxy⟩ := exists_held_of_lookup hl
      exact ⟨y, hy, he.trans hxy⟩

/-! ### Where the rounds have come to a stop -/

theorem exists_unready_of_blocked {p : Property} (h : (propertyStep m rules p).outcome = .blocked) :
    ∃ C, p.follows? = some C ∧ ∃ q ∈ m.classProperties C, m.Unready rules q := by
  unfold propertyStep at h
  cases ha : p.alias? with
  | none => simp [ha] at h
  | some a =>
    cases hC : a.cls.target with
    | none => simp [ha, hC] at h
    | some C =>
      refine ⟨C, by simp [Property.follows?, mem_alias?_iff.mp ha, hC], ?_⟩
      have hunnamed : ¬ (namedCandidates m rules C).all (fun c => c.2.isSome) = true →
          ∃ q ∈ m.classProperties C, m.Unready rules q := by
        intro hall
        simp only [namedCandidates, List.all_map, List.all_eq_true, Function.comp_apply,
          not_forall] at hall
        obtain ⟨q, hq, hname⟩ := hall
        exact ⟨q, hq, Or.inr (by simpa using hname)⟩
      simp only [ha, hC, aliasStep] at h
      split at h
      next hs =>
        have hnot : ¬ isSettled m C = true := by simpa using hs
        simp only [isSettled_iff, not_forall] at hnot
        obtain ⟨q, hq, hchoice⟩ := hnot
        exact ⟨q, hq, Or.inl (by simpa using hchoice)⟩
      · split at h
        · split at h
          · split at h <;> simp at h
          · split at h
            · simp at h
            next hall => exact hunnamed hall
        · split at h
          next hall => exact hunnamed (by simpa using hall)
          · split at h
            · split at h <;> simp at h
            · simp at h

/-- **An open alias is faulted, or waits for a property of the class that it follows**, once the
rounds have come to a stop. -/
theorem faulted_or_blocked (h : m.AsLoaded) {s : AliasState}
    (hrun : Run rules { model := (linkNames m).model } s)
    (hstall : StallsAt rules s (expanded rules m))
    (hu : s.model.Untangled) {p : Property} (hp : p ∈ s.model.properties)
    (ho : isOpenAlias p = true) :
    (linkNames m).model.Faulted (m.link rules).problems p ∨
      ∃ C, p.follows? = some C ∧ ∃ q ∈ s.model.classProperties C, s.model.Unready rules q := by
  have hs := sound_named rules h
  by_cases hgiven : p.location ∈ s.failed
  · obtain ⟨d, hd, hl, -, hexc⟩ := Run.given hrun hs rfl _ hgiven
    exact Or.inl ((faulted_of_excused h hd hexc hstall.plain hstall.kept).congr hl.symm)
  have hpend : p ∈ pendingAliases s := mem_pendingAliases.mpr ⟨hp, ho, hgiven⟩
  rcases failed_or_blocked hstall.stuck hpend with hfailed | hblocked
  · obtain ⟨d, hd, hstem⟩ := Run.stems hrun hs p hp
    have hexc := (excused_of_step ho hfailed).congr hstem.location.symm (hstem.opened ho).symm
    refine Or.inl ((faulted_of_excused h hd hexc ?_ (hstall.found p hpend)).congr hstem.location)
    exact plain_of_step (Run.sound hrun hs) hu hp ho
  · exact Or.inr (exists_unready_of_blocked hblocked)

/-! ### From there to the end -/

/-- The associations are resolved in place, and aliases stay as they are. -/
theorem exists_resolving_associationRounds (rules : NamingRules) (settled : Bool) (fuel : Nat) :
    ∀ M : Model, ∃ g, M.Resolving g ∧ (∀ p, (g p).alias? = p.alias?) ∧
      associationRounds rules settled fuel M = M.mapProperties g := by
  have hself : ∀ M : Model, ∃ g, M.Resolving g ∧ (∀ p, (g p).alias? = p.alias?) ∧
      M = M.mapProperties g :=
    fun M => ⟨id, ⟨fun _ => rfl, fun _ => rfl, fun _ _ => .refl _⟩, fun _ => rfl,
      (Model.mapProperties_eq_self fun _ _ => rfl).symm⟩
  induction fuel with
  | zero => exact hself
  | succ fuel ih =>
    intro M
    unfold associationRounds
    split
    · have hg := resolving_associationRound M rules settled
      obtain ⟨g', hg', halias, he⟩ := ih (associationRound M rules settled)
      refine ⟨_, ⟨fun p => (hg'.id _).trans (hg.id p),
        fun p => (hg'.location _).trans (hg.location p), fun p hp =>
          (hg.kind p hp).trans (hg'.kind _ ?_)⟩, fun p =>
        (halias _).trans (alias?_withAssociationTarget _ p),
          he.trans (mapProperties_mapProperties M _ g')⟩
      unfold associationRound
      rw [Model.properties_mapProperties]
      exact List.mem_map_of_mem hp
    · exact hself M

end Linking

namespace Model

variable {rules : NamingRules} {M : Model} {g : Property → Property} {f : Class → Class}

theorem keyOf_completed (hg : M.Resolving g) (hM : M.Numbered) (hf : Surrounding f)
    (a : AssociationProperty) : ((M.mapProperties g).mapClasses f).keyOf a = M.keyOf a := by
  rw [keyOf_mapClasses hf]
  have hkey : ∀ C, ((M.mapProperties g).singlePrimaryKey C).map (·.id)
      = (M.singlePrimaryKey C).map (·.id) := by
    intro C
    unfold singlePrimaryKey
    rw [hg.primaryKey hM]
    match M.primaryKey C with
    | [] | _ :: _ :: _ => rfl
    | [p] => exact congrArg some (hg.id p)
  unfold keyOf
  cases a.property with
  | some r => rfl
  | none =>
    cases a.association.target with
    | none => rfl
    | some C => simpa [Option.map_eq_bind] using hkey C

/-- A chain of names stays when references are resolved in place. -/
theorem LeadsOn.completed (hg : M.Resolving g) (hM : M.Numbered) (hf : Surrounding f) {steps : Nat}
    {id : PropertyId} (h : M.LeadsOn M.nameStep steps id) :
    ((M.mapProperties g).mapClasses f).LeadsOn ((M.mapProperties g).mapClasses f).nameStep
      steps id := by
  obtain ⟨chain, hlength, hhead, hchain⟩ := h
  refine ⟨chain, hlength, hhead, hchain.imp ?_⟩
  rintro a b ⟨p, hp, hstep⟩
  have hres := hg.kind p (mem_of_property? hM hp)
  refine ⟨g p, by rw [property?_mapClasses hf, property?_mapProperties, hp, Option.map_some], ?_⟩
  have hundeclared : p.declaredName? = none := by
    unfold nameStep at hstep
    split at hstep
    · exact absurd hstep (by simp)
    · assumption
  have hnext : M.nextOnChain p = some b := by rwa [nameStep, hundeclared] at hstep
  rw [nameStep, show (g p).declaredName? = none from hres.declaredName?.trans hundeclared]
  cases hk : p.kind with
  | regular | composition => simp [nextOnChain, hk] at hnext
  | association a =>
    have hkey : M.keyOf a = some b := by simpa [nextOnChain, hk] using hnext
    have hsame : (g p).kind = .association a := by
      generalize (g p).kind = k at hres
      rw [hk] at hres
      cases hres with
      | refl => rfl
      | association id ha ho =>
        simp only [keyOf, ha] at hkey
        exact absurd (ho.symm.trans hkey) (by simp)
    simpa [nextOnChain, hsame, keyOf_completed hg hM hf] using hkey
  | propertyAlias a =>
    have htarget : a.property.bind Reference.target = some b := by
      simpa [nextOnChain, hk] using hnext
    have hsame : (g p).kind = .propertyAlias a := by
      generalize (g p).kind = k at hres
      rw [hk] at hres
      cases hres with
      | refl => rfl
      | propertyAlias id ha ho =>
        rw [ha] at htarget
        exact absurd (ho.symm.trans htarget) (by simp)
    simpa [nextOnChain, hsame] using htarget

theorem propertyName?_completed (hg : M.Resolving g) (hM : M.Numbered) (hf : Surrounding f)
    {p : Property} (hp : p ∈ M.properties) {n : String} (h : M.propertyName? rules p.id = some n) :
    ((M.mapProperties g).mapClasses f).propertyName? rules p.id = some n := by
  rw [propertyName?_mapClasses hf]
  refine (hg.refines hM).nameWithin hM (hM.mapProperties hg.id) _ p.id p.id p (g p) n
    (hM.property?_of_mem hp) ?_ (hg.kind p hp) h
  rw [property?_mapProperties, hM.property?_of_mem hp, Option.map_some]

theorem bind_cls?_completed {target : Option ClassId}
    (h : target.bind M.cls? = none) :
    target.bind ((M.mapProperties g).mapClasses f).cls? = none := by
  cases target with
  | none => rfl
  | some C =>
    have hnone : M.cls? C = none := h
    rw [Option.bind_some, cls?_mapClasses, mapProperties_eq_mapLists, cls?_mapLists, hnone]
    rfl

end Model

namespace Linking

variable {rules : NamingRules} {m : Model}

theorem associationProblem_of_keyless {p : Property} {a : AssociationProperty} {C : ClassId}
    (hk : p.kind = .association a) (hr : a.property = none) (hC : a.association.target = some C)
    (hkey : m.keyOf a = none) :
    ∃ d, Validation.associationProblem m p = some d ∧ d.isError = true ∧
      d.kind = .invalidAssociationTarget ∧ d.location = a.association.location := by
  have hsingle : ¬ (m.primaryKey C).length = 1 := by
    intro hone
    obtain ⟨q, hq⟩ := List.length_eq_one_iff.mp hone
    simp [Model.keyOf, hr, hC, Model.singlePrimaryKey_iff.mpr hq] at hkey
  refine ⟨{ problem := .invalidAssociationTarget (((m.cls? C).map (·.name.value)).getD "")
            location := a.association.location }, ?_, rfl, rfl, rfl⟩
  simp [Validation.associationProblem, Property.association?, hk, hC, hr, hsingle]

/-- The rounds over the aliases of `m` come to a stop at `s`, where the classes make no cycle, and
linking goes on from there by changing properties by `g` and then classes by `f`. -/
structure Halt (rules : NamingRules) (m : Model) (s : AliasState) (g : Property → Property)
    (f : Class → Class) : Prop where
  loaded : m.AsLoaded
  run : Run rules { model := (linkNames m).model } s
  stall : StallsAt rules s (expanded rules m)
  untangled : s.model.Untangled
  resolving : s.model.Resolving g
  aliases : ∀ p, (g p).alias? = p.alias?
  surrounding : Model.Surrounding f
  linked : (m.link rules).model = (s.model.mapProperties g).mapClasses f

/-- **Where the classes of the drafts make no cycle, the rounds over aliases come to such a
stop.** -/
theorem exists_halt (rules : NamingRules) (h : m.AsLoaded) (hu : (linkNames m).model.Untangled) :
    ∃ s g f, Halt rules m s g f := by
  have hs := sound_named rules h
  have hall : countsAsOpen [] = isOpenAlias := by
    funext p
    simp [countsAsOpen]
  obtain ⟨s, hrun, hstall⟩ := exists_stallsAt (roundLimit m) { model := (linkNames m).model } hs hu
    (by simp [Plain]) (by rw [roundLimit, openCount, hall]; exact Nat.lt_succ_self _)
  obtain ⟨g, hg, halias, hassociated⟩ := exists_resolving_associationRounds rules false
    (s.model.properties.countP (fun p => (openTarget p).isSome) + 1) s.model
  refine ⟨s, g, _, h, hrun, hstall, Run.untangled hrun hs hu, hg, halias,
    surrounding_resolveClassProperties ((associated rules m).findProperty rules), ?_⟩
  rw [link_model, resolvePropertyReferences_eq, ← hassociated, ← hstall.model]
  rfl

namespace Halt

variable {s : AliasState} {g : Property → Property} {f : Class → Class} {C : ClassId} {p : Property}

theorem sound (H : Halt rules m s g f) : Sound rules true s.model :=
  Run.sound H.run (sound_named rules H.loaded)

theorem stems (H : Halt rules m s g f) : Stems (linkNames m).model s.model :=
  Run.stems H.run (sound_named rules H.loaded)

theorem classProperties (H : Halt rules m s g f) (C : ClassId) :
    (m.link rules).model.classProperties C = (s.model.classProperties C).map g := by
  rw [H.linked, Model.classProperties_mapClasses H.surrounding, Model.classProperties_mapProperties]

theorem properties (H : Halt rules m s g f) :
    (m.link rules).model.properties = s.model.properties.map g := by
  rw [H.linked, Model.properties_mapClasses H.surrounding, Model.properties_mapProperties]

theorem mem (H : Halt rules m s g f) (hp : p ∈ s.model.classProperties C) :
    g p ∈ (m.link rules).model.classProperties C := by
  rw [H.classProperties]
  exact List.mem_map_of_mem hp

/-- A property of the linked model is obstructed if it has no name and something was found wrong
with it. -/
theorem obstructed_of_nameless (H : Halt rules m s g f) (hp : p ∈ s.model.classProperties C)
    (hless : (m.link rules).model.Nameless rules (g p))
    (hfaulted : (linkNames m).model.Faulted (m.link rules).problems p) :
    (linkNames m).model.Obstructed (m.link rules).problems rules (m.link rules).model (g p) where
  unready := Or.inr (Model.nameWithin_of_nameless
    ((sound_link rules H.loaded).numbered.property?_of_owned (H.mem hp)) hless _)
  cause := Or.inl (hfaulted.congr (H.resolving.location p))

theorem kind_of_alias (H : Halt rules m s g f) (ho : isOpenAlias p = true) :
    (g p).kind = p.kind := by
  obtain ⟨a, hk, -⟩ := isOpenAlias_iff.mp ho
  have ha : (g p).alias? = some a := by rw [H.aliases, Property.alias?, hk]
  exact (mem_alias?_iff.mp ha).trans hk.symm

/-- An open alias that is a choice or has no name is obstructed, unless it waits for a class. -/
theorem of_open_alias (H : Halt rules m s g f) (hp : p ∈ s.model.classProperties C)
    (ho : isOpenAlias p = true) (hstop : p.standsForChoice = true ∨ s.model.Nameless rules p) :
    (∃ q ∈ (m.link rules).model.classProperties C,
      (linkNames m).model.Obstructed (m.link rules).problems rules (m.link rules).model q) ∨
      ∃ D, s.model.Follows C D ∧ ∃ q ∈ s.model.classProperties D, s.model.Unready rules q := by
  rcases faulted_or_blocked H.loaded H.run H.stall H.untangled
    (H.sound.numbered.mem_of_classProperties hp) ho with hfaulted | ⟨D, hD, hwaits⟩
  · refine Or.inl ⟨g p, H.mem hp, ?_⟩
    have hkind := H.kind_of_alias ho
    rcases hstop with hchoice | hless
    · exact ⟨Or.inl (by simpa [Property.standsForChoice, H.aliases] using hchoice),
        Or.inl (hfaulted.congr (H.resolving.location p))⟩
    · -- an open alias has a name of its own or none at all, in any model
      refine H.obstructed_of_nameless hp (fun below => ?_) hfaulted
      obtain ⟨a, hk, hopen⟩ := isOpenAlias_iff.mp ho
      have hnone := hless below
      unfold Model.nameOf at hnone ⊢
      rw [hkind]
      split at hnone
      · exact absurd hnone (by simp)
      · simp [hk, hopen]
  · exact Or.inr ⟨D, ⟨p, hp, hD⟩, hwaits⟩

/-- What becomes of an association: its property is found, or nothing changes. -/
theorem association_cases (H : Halt rules m s g f) (hp : p ∈ s.model.classProperties C)
    {a : AssociationProperty} (hk : p.kind = .association a) :
    (g p).kind = .association a ∨ ∃ r t, a.property = some r ∧ r.target = none ∧
      (g p).kind = .association { a with property := some (r.resolve t) } := by
  have hres := H.resolving.kind p (H.sound.numbered.mem_of_classProperties hp)
  generalize (g p).kind = k at hres ⊢
  rw [hk] at hres
  cases hres with
  | refl => exact Or.inl rfl
  | association t hr ho => exact Or.inr ⟨_, t, hr, ho, rfl⟩

/-- An association with a class that is not there is obstructed. -/
theorem of_classless (H : Halt rules m s g f) (hp : p ∈ s.model.classProperties C)
    {a : AssociationProperty} (hk : p.kind = .association a)
    (hundeclared : p.kind.declaredName? = none)
    (hclass : a.association.target.bind s.model.cls? = none) :
    ∃ q ∈ (m.link rules).model.classProperties C,
      (linkNames m).model.Obstructed (m.link rules).problems rules (m.link rules).model q := by
  have hgone : a.association.target.bind (m.link rules).model.cls? = none := by
    rw [H.linked]
    exact Model.bind_cls?_completed hclass
  refine ⟨g p, H.mem hp, H.obstructed_of_nameless hp ?_ ?_⟩
  · have hmem := H.sound.numbered.mem_of_classProperties hp
    have hundeclared' := (H.resolving.kind p hmem).declaredName?.trans hundeclared
    rcases H.association_cases hp hk with hsame | ⟨r, t, -, -, hfound⟩
    · exact Model.nameless_of_association hsame hundeclared' (Or.inl hgone)
    · exact Model.nameless_of_association hfound hundeclared' (Or.inl hgone)
  · have hx : EntityReference.cls a.association ∈ propertyReferences p := by
      simp [propertyReferences, hk]
    rcases live_or_faulted rules H.loaded H.stems (H.sound.numbered.mem_of_classProperties hp) hx
      with ⟨e, he, hlive⟩ | hfaulted
    · obtain ⟨D, hD, rfl⟩ := Option.map_eq_some_iff.mp he
      obtain ⟨c, hc, rfl⟩ := hlive
      rw [hD, Option.bind_some,
        (sound_link rules H.loaded).numbered.cls?_iff.mpr ⟨hc, rfl⟩] at hgone
      exact absurd hgone (by simp)
    · exact hfaulted

/-- An association with a class that has no single key, which it would point to, is obstructed. -/
theorem of_keyless (H : Halt rules m s g f) (hp : p ∈ s.model.classProperties C)
    {a : AssociationProperty} (hk : p.kind = .association a)
    (hundeclared : p.kind.declaredName? = none)
    {D : ClassId} (hD : a.association.target = some D) (hr : a.property = none)
    (hkey : s.model.keyOf a = none) :
    ∃ q ∈ (m.link rules).model.classProperties C,
      (linkNames m).model.Obstructed (m.link rules).problems rules (m.link rules).model q := by
  have hmem := H.sound.numbered.mem_of_classProperties hp
  have hsame : (g p).kind = .association a := by
    rcases H.association_cases hp hk with hsame | ⟨r, t, hsome, -⟩
    · exact hsame
    · rw [hr] at hsome
      exact absurd hsome (by simp)
  have hkey' : (m.link rules).model.keyOf a = none := by
    rw [H.linked, Model.keyOf_completed H.resolving H.sound.numbered H.surrounding, hkey]
  obtain ⟨d, hd, herror, hkind, hat⟩ := associationProblem_of_keyless hsame hr hD hkey'
  refine ⟨g p, H.mem hp, H.obstructed_of_nameless hp
    (Model.nameless_of_association hsame ((H.resolving.kind p hmem).declaredName?.trans hundeclared)
      (Or.inr hkey')) ?_⟩
  have hvalidation : d ∈ Validation.problems (m.link rules).model rules := by
    refine List.mem_append_left _ (List.mem_append_right _ (List.mem_filterMap.mpr ⟨g p, ?_, hd⟩))
    exact (sound_link rules H.loaded).numbered.mem_of_classProperties (H.mem hp)
  obtain ⟨w, hw, hstem⟩ := H.stems p hmem
  have hx : EntityReference.cls a.association ∈ propertyReferences w := by
    rw [← hstem.references]
    simp [propertyReferences, hk]
  obtain ⟨y, hy, hxy⟩ := exists_held_of_reference hx
  refine ⟨w, hw, hstem.location.symm, d, ?_, herror, by simp [hkind], Or.inr ⟨y, hy, hat.trans hxy⟩⟩
  rw [link_problems]
  simp [hvalidation]

/-- An association with a property that is not found is obstructed, if its class is ready. -/
theorem of_not_found (H : Halt rules m s g f) (hp : p ∈ s.model.classProperties C)
    {a : AssociationProperty} (hk : p.kind = .association a)
    (hundeclared : p.kind.declaredName? = none)
    {D : ClassId} (hD : a.association.target = some D) {r : PropertyReference}
    (hr : a.property = some r)
    (ho : r.target = none) (hready : ∀ q ∈ s.model.classProperties D, ¬ s.model.Unready rules q) :
    ∃ q ∈ (m.link rules).model.classProperties C,
      (linkNames m).model.Obstructed (m.link rules).problems rules (m.link rules).model q := by
  have hmem := H.sound.numbered.mem_of_classProperties hp
  have hsettled : isSettled s.model D = true := isSettled_iff.mpr fun q hq => by
    rw [Bool.eq_false_iff]
    exact fun hchoice => hready q hq (Or.inl hchoice)
  have hopen : openTarget p = some (D, r) := openTarget_eq_some.mpr ⟨a, hk, hr, hD, ho⟩
  have hmissing : s.model.findProperty rules D r.text = none := by
    by_contra hfound
    obtain ⟨t, ht⟩ := Option.ne_none_iff_exists'.mp hfound
    have hsome : associationTarget s.model rules true p = some t :=
      associationTarget_eq_some.mpr ⟨D, r, hopen, fun _ => hsettled, ht⟩
    rw [H.stall.still p hmem] at hsome
    exact absurd hsome (by simp)
  -- what the association would be pointed to later goes by the name already
  have hsame : (g p).kind = .association a := by
    rcases H.association_cases hp hk with hsame | ⟨r', t, hr', -, hfound⟩
    · exact hsame
    obtain rfl := Option.some.inj (hr.symm.trans hr')
    exfalso
    have hL := sound_link rules H.loaded
    obtain ⟨D', hD', -, y, hy, hid, hname⟩ := hL.grounded (g p)
      (hL.numbered.mem_of_classProperties (H.mem hp)) a.association (r.resolve t)
      (by simp [hfound, PropertyKind.lookup?]) t rfl
    obtain rfl := Option.some.inj (hD.symm.trans hD')
    rw [H.classProperties, List.mem_map] at hy
    obtain ⟨x, hx, rfl⟩ := hy
    obtain ⟨n, hn⟩ := Option.ne_none_iff_exists'.mp fun hnone => hready x hx (Or.inr hnone)
    have hkept := Model.propertyName?_completed H.resolving H.sound.numbered H.surrounding
      (H.sound.numbered.mem_of_classProperties hx) hn
    rw [← H.linked, ← H.resolving.id x, hid, hname] at hkept
    have hnone := hmissing
    unfold Model.findProperty at hnone
    rw [Option.map_eq_none_iff, List.find?_eq_none] at hnone
    refine hnone x hx ?_
    rw [hn, ← hkept]
    exact beq_self_eq_true _
  have hkey : (m.link rules).model.keyOf a = none := by simp [Model.keyOf, hr, ho]
  refine ⟨g p, H.mem hp, H.obstructed_of_nameless hp
    (Model.nameless_of_association hsame ((H.resolving.kind p hmem).declaredName?.trans hundeclared)
      (Or.inr hkey)) ?_⟩
  obtain ⟨d, hd, herror, hkind, hat⟩ : ∃ d ∈ associationProblems (associated rules m),
      d.isError = true ∧
      d.kind = .propertyNotFound ∧ d.location = r.location := by
    refine ⟨{ problem := .propertyNotFound r.text (className (associated rules m) D)
              location := r.location }, List.mem_filterMap.mpr ⟨g p, ?_, ?_⟩, rfl, rfl, rfl⟩
    · rw [← properties_link]
      exact (sound_link rules H.loaded).numbered.mem_of_classProperties (H.mem hp)
    · rw [openTarget_eq_some.mpr ⟨a, hsame, hr, hD, ho⟩]
      rfl
  obtain ⟨w, hw, hstem⟩ := H.stems p hmem
  have hl : p.kind.lookup? = some (a.association, r) := by simp [hk, PropertyKind.lookup?, hr]
  obtain ⟨y, hy, hxy⟩ := exists_held_of_lookup (hstem.unresolved _ _ hl ho ▸ hl)
  refine ⟨w, hw, hstem.location.symm, d, ?_, herror, by simp [hkind], Or.inr ⟨y, hy, hat.trans hxy⟩⟩
  rw [link_problems]
  simp [hd]

/-- What is wrong with a property that stands for a choice, or that nothing gives a name: it is
obstructed in the linked model, or its class follows one with a property that is not ready. -/
theorem obstructed_or_follows (H : Halt rules m s g f) (hp : p ∈ s.model.classProperties C)
    (hstop : p.standsForChoice = true ∨ s.model.Nameless rules p) :
    (∃ q ∈ (m.link rules).model.classProperties C,
      (linkNames m).model.Obstructed (m.link rules).problems rules (m.link rules).model q) ∨
      ∃ D, s.model.Follows C D ∧ ∃ q ∈ s.model.classProperties D, s.model.Unready rules q := by
  rcases hstop with hchoice | hless
  · obtain ⟨a, hk, hnone⟩ := Property.standsForChoice_iff.mp hchoice
    exact H.of_open_alias hp (isOpenAlias_iff.mpr ⟨a, hk, by simp [hnone]⟩) (Or.inl hchoice)
  rcases hless.cases with ho | ⟨a, hk, hundeclared, hwhy⟩
  · exact H.of_open_alias hp ho (Or.inr hless)
  cases hclass : a.association.target.bind s.model.cls? with
  | none => exact Or.inl (H.of_classless hp hk hundeclared hclass)
  | some c =>
    obtain ⟨D, hD, -⟩ := Option.bind_eq_some_iff.mp hclass
    have hkey : s.model.keyOf a = none := hwhy.resolve_left (by simp [hclass])
    cases hr : a.property with
    | none => exact Or.inl (H.of_keyless hp hk hundeclared hD hr hkey)
    | some r =>
      have ho : r.target = none := by simpa [Model.keyOf, hr] using hkey
      by_cases hready : ∀ q ∈ s.model.classProperties D, ¬ s.model.Unready rules q
      · exact Or.inl (H.of_not_found hp hk hundeclared hD hr ho hready)
      · push Not at hready
        exact Or.inr ⟨D, ⟨p, hp, by simp [Property.follows?, hk, hD]⟩, hready⟩

/-- **A class with a property that is not ready leads to one with a property that is
obstructed.** -/
theorem obstructed_of_unready (H : Halt rules m s g f) (C : ClassId) :
    (∃ p ∈ s.model.classProperties C, s.model.Unready rules p) →
      ∃ E, ReflTransGen s.model.Follows C E ∧ ∃ q ∈ (m.link rules).model.classProperties E,
        (linkNames m).model.Obstructed (m.link rules).problems rules (m.link rules).model q := by
  induction C using H.untangled.induction H.sound.numbered with
  | hstep C ih =>
  rintro ⟨p, hp, hunready⟩
  -- a property that something is wrong with, or a class farther down
  have hdown : ∀ E, ReflTransGen s.model.Follows C E → ∀ q ∈ s.model.classProperties E,
      q.standsForChoice = true ∨ s.model.Nameless rules q →
        ∃ E, ReflTransGen s.model.Follows C E ∧ ∃ q ∈ (m.link rules).model.classProperties E,
          (linkNames m).model.Obstructed (m.link rules).problems rules (m.link rules).model q := by
    intro E hE q hq hstop
    rcases H.obstructed_or_follows hq hstop with hobstructed | ⟨D, hD, hwaits⟩
    · exact ⟨E, hE, hobstructed⟩
    · have hCD : TransGen s.model.Follows C D := TransGen.tail' hE hD
      obtain ⟨E', hE', hobstructed⟩ := ih D hCD hwaits
      exact ⟨E', hCD.to_reflTransGen.trans hE', hobstructed⟩
  rcases hunready with hchoice | hname
  · exact hdown C .refl p hp (Or.inl hchoice)
  rcases Model.leadsOn_or_nameless H.sound _ C p hp hname with hleads | ⟨E, hE, q, hq, hless⟩
  · have hend := hleads.completed H.resolving H.sound.numbered H.surrounding
    rw [← H.linked, ← H.resolving.id p] at hend
    exact ⟨C, .refl, g p, H.mem hp, Or.inr (Model.nameWithin_of_leadsOn _ _ hend), Or.inr hend⟩
  · exact hdown E hE q hq (Or.inr hless)

end Halt

/-- Cycles of aliases are reported by the rounds over aliases alone. -/
theorem mem_expanded_of_circular (h : m.AsLoaded) {d : Diagnostic}
    (hd : d ∈ (m.link rules).problems)
    (hk : d.kind = .circularAlias) : d ∈ (expanded rules m).problems := by
  have hpart : (reportParts rules m).filter (·.1.contains .circularAlias)
      = [([.propertyNotFound, .circularAlias], (expanded rules m).problems)] := rfl
  simpa only [mem_link_kind rules h, hk, hpart, List.mem_singleton, exists_eq_left] using hd

/-- **Where the classes of the drafts make no cycle, an alias that is taken for a part of one is of
a class that leads to an obstructed property.** -/
theorem obstructed_of_circular (h : m.AsLoaded) (hu : (linkNames m).model.Untangled)
    {d : Diagnostic} (hd : d ∈ (m.link rules).problems) (hk : d.kind = .circularAlias) :
    ∃ p ∈ (m.link rules).model.properties, isOpenAlias p = true ∧ d.location = p.location ∧
      ∃ C, p.follows? = some C ∧ ∃ E, ReflTransGen (linkNames m).model.Follows C E ∧
        ∃ q ∈ (m.link rules).model.classProperties E,
          m.Obstructed (m.link rules).problems rules (m.link rules).model q := by
  obtain ⟨s, g, f, H⟩ := exists_halt rules h hu
  obtain ⟨p, hpend, hblocked, hat⟩ := H.stall.circular d (mem_expanded_of_circular h hd hk) hk
  obtain ⟨hp, ho, -⟩ := mem_pendingAliases.mp hpend
  obtain ⟨C, hC, hunready⟩ := exists_unready_of_blocked hblocked
  obtain ⟨E, hE, q, hq, hobstructed⟩ := H.obstructed_of_unready C hunready
  have hkind := H.kind_of_alias ho
  refine ⟨g p, H.properties ▸ List.mem_map_of_mem hp, (isOpenAlias_congr hkind).trans ho,
    hat.trans (H.resolving.location p).symm, C, by
    simpa [Property.follows?, hkind] using hC, E, ?_, q, hq, hobstructed.unready,
      hobstructed.cause.imp_left faulted_of_named⟩
  exact ReflTransGen.mono (fun _ _ => Run.follows H.run (sound_named rules h)) _ _ hE

end Linking

end EntityModel
