import EntityModel.Proofs.Linking.Targets

/-!
# Steps of a round over aliases

In a round every pending alias is looked at in the same model, and what was found is carried out
afterwards: first the aliases that name a property are pointed to it one by one, then the choices
are put in place all at once.  Both keep the invariant (`Sound.setAliasTarget`,
`Sound.applyExpansions`).  What an alias was found to point to in the model at the start is still
true when its turn comes, since neither moves or renames what a settled class holds
(`Grounded.setAliasTarget`, `Grounded.applyExpansions`).
-/

namespace EntityModel.Linking

variable {m : Model} {rules : NamingRules}

/-! ### What is found in a round -/

theorem goesBy_of_findCandidate {C : ClassId} {name : String} {t : PropertyId}
    (h : findCandidate (namedCandidates m rules C) name = some t) : m.GoesBy rules C name t := by
  obtain ⟨⟨id, n⟩, hq, rfl⟩ := Option.map_eq_some_iff.mp h
  have hname := List.find?_some hq
  obtain ⟨q, hmem, he⟩ := List.mem_map.mp (List.mem_of_find?_eq_some hq)
  obtain ⟨rfl, rfl⟩ := Prod.mk.inj he
  exact ⟨q, hmem, rfl, by simpa using hname⟩

/-- What a choice takes from a class goes by the name that it is taken by. -/
theorem goesBy_of_chosen {C : ClassId} {location : Location} {a : AliasProperty}
    (hall : (namedCandidates m rules C).all (fun (_, name) => name.isSome) = true)
    {t : PropertyId} {name : Located String}
    (h : (t, name) ∈ chosenProperties (namedCandidates m rules C) location a) :
    m.GoesBy rules C name.value t := by
  unfold chosenProperties at h
  split at h
  · obtain ⟨⟨id, n⟩, hmem, h⟩ := List.mem_filterMap.mp h
    have hn : n.isSome = true := List.all_eq_true.mp hall _ hmem
    obtain ⟨n, rfl⟩ := Option.isSome_iff_exists.mp hn
    simp only [Option.getD_some, Option.ite_none_right_eq_some, Option.some.injEq,
      Prod.mk.injEq] at h
    obtain ⟨_, rfl, rfl⟩ := h
    obtain ⟨q, hq, he⟩ := List.mem_map.mp hmem
    obtain ⟨rfl, hname⟩ := Prod.mk.inj he
    exact ⟨q, hq, rfl, hname⟩
  · obtain ⟨n, _, h⟩ := List.mem_filterMap.mp h
    obtain ⟨id, hfound, he⟩ := Option.map_eq_some_iff.mp h
    obtain ⟨rfl, rfl⟩ := Prod.mk.inj he
    exact goesBy_of_findCandidate hfound

/-- The alias `p`, still open, may be pointed to `t`. -/
def MayPoint (rules : NamingRules) (m : Model) (p : Property) (t : PropertyId) : Prop :=
  ∃ a r, p.kind = .propertyAlias a ∧ a.property = some r ∧ r.target = none ∧
    Grounded rules true m a.cls (r.resolve t)

/-- The choice `p` may be replaced by `kinds`. -/
structure MayExpand (rules : NamingRules) (m : Model) (p : Property) (kinds : List PropertyKind) :
    Prop where
  expands : ∃ a C, p.kind = .propertyAlias a ∧ a.property = none ∧ a.cls.target = some C ∧
    isSettled m C = true ∧ ∀ k ∈ kinds, ∃ t name, k = expandedAlias a t name ∧
      m.GoesBy rules C name.value t
  returned : ∀ e, p.owner = .returns e → kinds.length = 1

theorem mayPoint_of_step {p : Property} (ho : isOpenAlias p = true) {t : PropertyId}
    (h : (propertyStep m rules p).outcome = .resolve t) : MayPoint rules m p t := by
  obtain ⟨a, hk, hopen⟩ := isOpenAlias_iff.mp ho
  simp only [propertyStep, Property.alias?, hk] at h
  cases hC : a.cls.target with
  | none => simp [hC] at h
  | some C =>
    simp only [hC, aliasStep] at h
    split at h
    · simp at h
    next hs =>
      cases hp : a.property with
      | none =>
        simp only [hp] at h
        split at h
        · simp at h
        · split at h
          · split at h <;> simp at h
          · simp at h
      | some r =>
        simp only [hp] at h
        cases hf : findCandidate (namedCandidates m rules C) r.text with
        | none => simp only [hf] at h; split at h <;> simp at h
        | some t' =>
          simp only [hf] at h
          split at h
          · simp at h
          · obtain rfl : t' = t := by simpa using h
            refine ⟨a, r, hk, hp, by simpa [hp] using hopen, ?_⟩
            rintro _ ⟨⟩
            exact ⟨C, hC, fun _ => by simpa using hs, goesBy_of_findCandidate hf⟩

theorem mayExpand_of_step {p : Property} {kinds : List PropertyKind}
    (h : (propertyStep m rules p).outcome = .expand kinds) : MayExpand rules m p kinds := by
  cases hk : p.kind with
  | propertyAlias a =>
    simp only [propertyStep, Property.alias?, hk] at h
    cases hC : a.cls.target with
    | none => simp [hC] at h
    | some C =>
      simp only [hC, aliasStep] at h
      split at h
      · simp at h
      next hs =>
        have hsettled : isSettled m C = true := by simpa using hs
        cases hp : a.property with
        | some r =>
          simp only [hp] at h
          cases hf : findCandidate (namedCandidates m rules C) r.text with
          | none => simp only [hf] at h; split at h <;> simp at h
          | some t => simp only [hf] at h; split at h <;> simp at h
        | none =>
          simp only [hp] at h
          split at h
          · simp at h
          next hall =>
            rw [Bool.not_eq_true', Bool.not_eq_false] at hall
            -- the aliases in place of the choice, whatever the owner
            have hexpands : ∃ a' C', p.kind = .propertyAlias a' ∧ a'.property = none ∧
                a'.cls.target = some C' ∧ isSettled m C' = true ∧
                ∀ k ∈ (chosenProperties (namedCandidates m rules C) p.location a).map
                  (fun c => expandedAlias a c.1 c.2),
                ∃ t name, k = expandedAlias a' t name ∧ m.GoesBy rules C' name.value t := by
              refine ⟨a, C, hk, hp, hC, hsettled, fun k hk' => ?_⟩
              obtain ⟨⟨t, name⟩, hmem, rfl⟩ := List.mem_map.mp hk'
              exact ⟨t, name, rfl, goesBy_of_chosen hall hmem⟩
            split at h
            · split at h
              next hlen =>
                obtain rfl := Outcome.expand.inj h
                exact ⟨hexpands, fun _ _ => by simpa using hlen⟩
              · simp at h
            next hret =>
              obtain rfl := Outcome.expand.inj h
              exact ⟨hexpands, fun e he => absurd he (hret e)⟩
  | _ => simp [propertyStep, Property.alias?, hk] at h

/-! ### Pointing an alias -/

def pointing (id target : PropertyId) (p : Property) : Property :=
  match p.kind with
  | .propertyAlias a =>
    if p.id == id then
      { p with kind := .propertyAlias { a with property := a.property.map (·.resolve target) } }
    else p
  | _ => p

theorem setAliasTarget_eq (m : Model) (id target : PropertyId) :
    setAliasTarget m id target = m.mapProperties (pointing id target) := rfl

theorem pointing_of_ne {id target : PropertyId} {p : Property} (h : p.id ≠ id) :
    pointing id target p = p := by
  unfold pointing
  split
  · rw [if_neg (by simpa using h)]
  · rfl

theorem pointing_self {target : PropertyId} {p : Property} {a : AliasProperty}
    {r : PropertyReference} (hk : p.kind = .propertyAlias a) (hr : a.property = some r) :
    pointing p.id target p
      = { p with kind := .propertyAlias { a with property := some (r.resolve target) } } := by
  simp [pointing, hk, hr]

variable {p : Property} {t : PropertyId}

theorem MayPoint.resolving (h : MayPoint rules m p t) (hm : m.Numbered) (hp : p ∈ m.properties) :
    m.Resolving (pointing p.id t) where
  id q := by unfold pointing; split <;> (try split) <;> rfl
  location q := by unfold pointing; split <;> (try split) <;> rfl
  kind q hq := by
    by_cases he : q.id = p.id
    · obtain rfl := hm.property_inj hq hp he
      obtain ⟨a, r, hk, hr, ho, _⟩ := h
      rw [pointing_self hk hr, hk]
      exact .propertyAlias t hr ho
    · rw [pointing_of_ne he]
      exact .refl _

theorem Grounded.setAliasTarget {settled : Bool} {cls : ClassReference} {r : PropertyReference}
    (h : Grounded rules settled m cls r) (hm : m.Numbered) (hp : p ∈ m.properties)
    (hmay : MayPoint rules m p t) : Grounded rules settled (setAliasTarget m p.id t) cls r :=
  h.mapProperties (hmay.resolving hm hp) hm

theorem mem_setAliasTarget {id target : PropertyId} {q : Property} (hq : q ∈ m.properties)
    (h : q.id ≠ id) : q ∈ (setAliasTarget m id target).properties := by
  rw [setAliasTarget_eq, Model.properties_mapProperties]
  exact List.mem_map.mpr ⟨q, hq, pointing_of_ne h⟩

theorem aliasTarget_setAliasTarget {id target : PropertyId} {q : Property} (hm : m.Numbered)
    (hq : q ∈ m.properties) (h : q.id ≠ id) :
    aliasTarget (setAliasTarget m id target) q.id = aliasTarget m q.id := by
  rw [aliasTarget_eq, aliasTarget_eq, setAliasTarget_eq, Model.property?_mapProperties,
    hm.property?_of_mem hq, Option.map_some, pointing_of_ne h]

/-- **An alias that passes the check for cycles may be pointed to what was found for it.** -/
theorem Sound.setAliasTarget (h : Sound rules true m) (hp : p ∈ m.properties)
    (hmay : MayPoint rules m p t) (hcycle : closesCycle m p.id t = false) :
    Sound rules true (setAliasTarget m p.id t) := by
  have hg := hmay.resolving h.numbered hp
  obtain ⟨a, r, hk, hr, _, hground⟩ := hmay
  rw [setAliasTarget_eq]
  refine h.mapProperties hg ?_ ?_
  · intro q hq cls r' hl
    by_cases he : q.id = p.id
    · obtain rfl := h.numbered.property_inj hq hp he
      rw [pointing_self hk hr] at hl
      obtain ⟨rfl, rfl⟩ : a.cls = cls ∧ r.resolve t = r' := by
        simpa [PropertyKind.lookup?] using hl
      exact hground
    · rw [pointing_of_ne he] at hl
      exact h.grounded q hq cls r' hl
  · have hlive : ∃ q ∈ m.properties, q.id = t := by
      obtain ⟨C, _, _, q, hq, hid, _⟩ := hground t rfl
      exact ⟨q, h.numbered.mem_of_classProperties hq, hid⟩
    -- an edge of the new graph is an old one, or the new one
    have hedge : ∀ x y, Points (Linking.setAliasTarget m p.id t) x y → Points m x y ∨ y = t := by
      intro x y hxy
      rw [Points, aliasTarget_eq, setAliasTarget_eq, Model.property?_mapProperties,
        Option.bind_eq_some_iff] at hxy
      obtain ⟨q', hq', hres⟩ := hxy
      obtain ⟨q, hq, rfl⟩ := Option.map_eq_some_iff.mp hq'
      by_cases he : q.id = p.id
      · obtain rfl := h.numbered.property_inj (Model.mem_of_property? h.numbered hq) hp he
        rw [pointing_self hk hr] at hres
        exact Or.inr (Option.some.inj hres).symm
      · rw [pointing_of_ne he] at hres
        exact Or.inl (by rw [Points, aliasTarget_eq, hq, Option.bind_some, hres])
    refine h.acyclic.of_new_edge (closesCycle_eq_false hcycle) ?_ ?_
    · intro b hb
      rw [← setAliasTarget_eq, Points, aliasTarget_eq, setAliasTarget_eq,
        Model.property?_mapProperties, h.numbered.property?_of_mem hp, Option.map_some,
        Option.bind_some, pointing_self hk hr] at hb
      exact (Option.some.inj hb).symm
    · intro x b hxb hne
      obtain ⟨q, hq, rfl⟩ : ∃ q ∈ m.properties, q.id = b := by
        rcases hedge x b hxb with hold | rfl
        · exact h.live_of_points hold
        · exact hlive
      exact aliasTarget_setAliasTarget h.numbered hq hne

/-! ### Putting the choices in place -/

variable {expansions : List (PropertyId × List PropertyKind)}

theorem Sound.settled_of_target (h : Sound rules true m) :
    ∀ p ∈ m.properties, ∀ cls r t, p.kind.lookup? = some (cls, r) → r.target = some t →
      ∃ C, isSettled m C = true ∧ ∃ q ∈ m.classProperties C, q.id = t := by
  intro p hp cls r t hl ht
  obtain ⟨C, _, hs, q, hq, hid, _⟩ := h.grounded p hp cls r hl t ht
  exact ⟨C, hs rfl, q, hq, hid⟩

theorem Grounded.applyExpansions {cls : ClassReference} {r : PropertyReference}
    (hr : Grounded rules true m cls r) (h : Sound rules true m) (hf : Fits m expansions) :
    Grounded rules true (applyExpansions m expansions) cls r := by
  intro t ht
  obtain ⟨C, hC, hs, q, hq, hid, hname⟩ := hr t ht
  have hsame := hf.classProperties_of_settled h.numbered (hs rfl)
  have hnum := numbered_applyExpansions h.numbered expansions
  refine ⟨C, hC, fun _ => ?_, q, hsame ▸ hq, hid, ?_⟩
  · rw [isSettled_iff, hsame]
    exact isSettled_iff.mp (hs rfl)
  · subst hid
    exact (hf.refines h.numbered h.settled_of_target).nameWithin h.numbered hnum _ q.id q.id q q _
      (h.numbered.property?_of_owned hq) (hnum.property?_of_owned (hsame ▸ hq)) (.refl _) hname

/-- **Choices may be replaced by what was found for them.** -/
theorem Sound.applyExpansions (h : Sound rules true m) (hf : Fits m expansions)
    (hg : ∀ p ∈ m.properties, ∀ kinds, expansions.lookup p.id = some kinds → ∀ k ∈ kinds, ∀ cls r,
      k.lookup? = some (cls, r) → Grounded rules true m cls r) :
    Sound rules true (applyExpansions m expansions) := by
  have hnum := numbered_applyExpansions h.numbered expansions
  have hground : ∀ p' ∈ (Linking.applyExpansions m expansions).properties, ∀ cls r,
      p'.kind.lookup? = some (cls, r) → Grounded rules true m cls r := by
    intro p' hp' cls r hl
    have hc : p'.content ∈ (m.properties.flatMap (spliced expansions)).map Property.content := by
      rw [← hf.content_properties h.numbered]
      exact List.mem_map_of_mem hp'
    obtain ⟨q, hq, hcontent⟩ := List.mem_map.mp hc
    obtain ⟨p, hp, hq⟩ := List.mem_flatMap.mp hq
    have hkind : q.kind = p'.kind := congrArg Prod.snd hcontent
    rw [← hkind] at hl
    rcases hf.mem_spliced hp hq with rfl | ⟨_, _, kinds, _, _, _, hlook, hk, _⟩
    · exact h.grounded q hp cls r hl
    · exact hg p hp kinds hlook q.kind hk cls r hl
  refine ⟨hnum, fun p' hp' cls r hl => (hground p' hp' cls r hl).applyExpansions h hf, ?_⟩
  -- whatever is pointed to stands in a settled class, and there nothing is changed
  refine h.acyclic.of_agree fun x b hxb => ?_
  rw [Points, aliasTarget_eq, Option.bind_eq_some_iff] at hxb
  obtain ⟨p', hp', hres⟩ := hxb
  obtain ⟨a, r, hk, hr, ht⟩ := resolvedTo_eq_some.mp hres
  obtain ⟨C, _, hs, q, hq, rfl, _⟩ := hground p' (Model.mem_of_property? hnum hp') a.cls r
    (by simp [hk, PropertyKind.lookup?, hr]) b ht
  have hsame := hf.classProperties_of_settled h.numbered (hs rfl)
  rw [aliasTarget_eq, aliasTarget_eq, h.numbered.property?_of_owned hq,
    hnum.property?_of_owned (hsame ▸ hq)]

end EntityModel.Linking
