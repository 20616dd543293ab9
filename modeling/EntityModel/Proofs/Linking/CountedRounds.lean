import EntityModel.Proofs.Linking.Accounted
import EntityModel.Proofs.Linking.Fixpoints
import EntityModel.Proofs.Store.References

/-!
# How many rounds linking makes

Linking repeats its rounds until there is nothing left to do.  Here the loops are told without a
bound on the number of rounds (`AssociationLoop`, `AliasLoop`): a round is made as long as there is
something to do, and what it met is written down.  The functions that make the rounds follow these
loops to the end (`associationLoop_resolveAssociations`, `aliasLoop_aliasRounds`).  Each round over
the aliases has fewer of them pending than the one before, and neither loop makes more than one
round over the number of properties that it may have to do with, as they stand in the drafts
(`Store.Reachable.rounds_bounded`).
-/

namespace EntityModel

namespace Linking

variable {rules : NamingRules} {settled : Bool} {m : Model}

/-! ### The loops -/

/-- Rounds over the associations until one of them finds nothing, with the number of rounds made. -/
inductive AssociationLoop (rules : NamingRules) (settled : Bool) : Model → Nat → Model → Prop
  | stop {m : Model} : (∀ p ∈ m.properties, associationTarget m rules settled p = none) →
      AssociationLoop rules settled m 1 m
  | again {m m' : Model} {n : Nat} :
      (∃ p ∈ m.properties, (associationTarget m rules settled p).isSome = true) →
      AssociationLoop rules settled (associationRound m rules settled) n m' →
      AssociationLoop rules settled m (n + 1) m'

/-- What a round over the aliases meets: how many of them are pending, once so many rounds over the
associations are made. -/
structure Round where
  pending : Nat
  searches : Nat
deriving Repr, DecidableEq

/-- Rounds over the aliases until none of them is pending, with what each round meets. -/
inductive AliasLoop (rules : NamingRules) : AliasState → List Round → AliasState → Prop
  | stop {s s' : AliasState} {searches : Nat} : s' = { s with model := s'.model } →
      AssociationLoop rules true s.model searches s'.model → pendingAliases s' = [] →
      AliasLoop rules s [⟨0, searches⟩] s'
  | again {s s₁ s' : AliasState} {searches : Nat} {rounds : List Round} :
      s₁ = { s with model := s₁.model } →
      AssociationLoop rules true s.model searches s₁.model → pendingAliases s₁ ≠ [] →
      AliasLoop rules (aliasRound rules s₁ (pendingAliases s₁)) rounds s' →
      AliasLoop rules s (⟨(pendingAliases s₁).length, searches⟩ :: rounds) s'

theorem associationLoop_associationRounds (fuel : Nat) : ∀ m : Model, openTargets m < fuel →
    ∃ n ≤ openTargets m + 1,
      AssociationLoop rules settled m n (associationRounds rules settled fuel m) := by
  induction fuel with
  | zero => exact fun m h => absurd h (Nat.not_lt_zero _)
  | succ fuel ih =>
    intro m h
    unfold associationRounds
    split
    next hany =>
      have hless := openTargets_associationRound hany
      obtain ⟨n, hn, hloop⟩ := ih _ (hless.trans_le (Nat.le_of_lt_succ h))
      exact ⟨n + 1, Nat.succ_le_succ (hn.trans hless), .again (List.any_eq_true.mp hany) hloop⟩
    next hnone =>
      refine ⟨1, Nat.le_add_left _ _, .stop fun p hp => ?_⟩
      by_contra hsome
      exact hnone (List.any_eq_true.mpr ⟨p, hp, Option.isSome_iff_ne_none.mpr hsome⟩)

/-! ### Associations that name a property -/

def namesProperty (p : Property) : Bool := p.association?.any fun a => a.property.isSome

theorem namesProperty_of_open {p : Property} (h : (openTarget p).isSome = true) :
    namesProperty p = true := by
  obtain ⟨⟨C, r⟩, h⟩ := Option.isSome_iff_exists.mp h
  obtain ⟨a, hk, hr, -⟩ := openTarget_eq_some.mp h
  simp [namesProperty, Property.association?, hk, hr]

theorem openTargets_le (m : Model) : openTargets m ≤ m.properties.countP namesProperty :=
  List.countP_mono_left fun _ _ => namesProperty_of_open

/-- **The search for the properties of associations makes at most one round more than there are
associations that name one.** -/
theorem associationLoop_resolveAssociations (rules : NamingRules) (settled : Bool) (m : Model) :
    ∃ n ≤ m.properties.countP namesProperty + 1,
      AssociationLoop rules settled m n (resolveAssociations rules settled m) := by
  obtain ⟨n, hn, hloop⟩ := associationLoop_associationRounds _ m (Nat.lt_succ_self (openTargets m))
  exact ⟨n, hn.trans (Nat.succ_le_succ (openTargets_le m)), hloop⟩

theorem namesProperty_content {p q : Property} (h : p.content = q.content) :
    namesProperty p = namesProperty q := by
  obtain ⟨-, hk⟩ := Prod.mk.inj h
  simp [namesProperty, Property.association?, hk]

theorem namesProperty_withAssociationTarget (target : Option PropertyId) (p : Property) :
    namesProperty (withAssociationTarget target p) = namesProperty p := by
  unfold withAssociationTarget
  split
  next a _ hk => simp [namesProperty, Property.association?, hk]
  · rfl

theorem namesProperty_pointing (id t : PropertyId) (p : Property) :
    namesProperty (pointing id t p) = namesProperty p := by
  unfold pointing
  split
  next a hk =>
    split
    · simp [namesProperty, Property.association?, hk]
    · rfl
  · rfl

theorem Fits.countP_namesProperty {expansions : List (PropertyId × List PropertyKind)}
    (h : Fits m expansions) {p : Property} (hp : p ∈ m.properties) :
    (spliced expansions p).countP namesProperty ≤ if namesProperty p then 1 else 0 := by
  cases hl : expansions.lookup p.id with
  | none => simp [spliced, hl, List.countP_singleton]
  | some kinds =>
    refine le_of_eq_of_le (List.countP_eq_zero.mpr fun q hq => ?_) (Nat.zero_le _)
    rw [spliced, hl, List.mem_map] at hq
    obtain ⟨k, hk, rfl⟩ := hq
    obtain ⟨a, _, _, _, _, _, hkinds⟩ := h.expands p hp kinds hl
    obtain ⟨t, name, rfl⟩ := hkinds k hk
    simp [namesProperty, Property.association?, expandedAlias]

/-- The rounds over the aliases bring in no association. -/
theorem Move.countP_namesProperty {s s' : AliasState} (h : Move rules s s')
    (hs : Sound rules true s.model) :
    s'.model.properties.countP namesProperty ≤ s.model.properties.countP namesProperty := by
  cases h with
  | associate =>
    rw [associationRound, Model.properties_mapProperties, List.countP_map]
    exact (List.countP_congr fun p _ => by
      rw [Function.comp_apply, namesProperty_withAssociationTarget]).le
  | report | giveUp => exact Nat.le_refl _
  | point =>
    rw [setAliasTarget_eq, Model.properties_mapProperties, List.countP_map]
    exact (List.countP_congr fun p _ => by rw [Function.comp_apply, namesProperty_pointing]).le
  | splice hf _ =>
    rw [countP_content (fun _ _ => namesProperty_content) (hf.content_properties hs.numbered)]
    exact countP_flatMap_le _ fun p hp => hf.countP_namesProperty hp

theorem Run.countP_namesProperty {s s' : AliasState} (h : Run rules s s')
    (hs : Sound rules true s.model) :
    s'.model.properties.countP namesProperty ≤ s.model.properties.countP namesProperty := by
  induction h with
  | refl => exact Nat.le_refl _
  | tail hrun hmove ih => exact (hmove.countP_namesProperty (Run.sound hrun hs)).trans ih

/-! ### Rounds over the aliases -/

theorem length_pendingAliases (s : AliasState) :
    (pendingAliases s).length = openCount s.failed s.model := List.countP_eq_length_filter.symm

/-- **The rounds over the aliases come to an end.**  Each of them has fewer aliases pending than the
one before, so that there is at most one more of them than there are aliases pending at the
start. -/
theorem aliasLoop_aliasRounds (fuel : Nat) : ∀ s : AliasState, Sound rules true s.model →
    openCount s.failed s.model < fuel →
    ∃ rounds, AliasLoop rules s rounds (aliasRounds rules fuel s) ∧
      rounds.Pairwise (·.pending > ·.pending) ∧
      rounds.length ≤ openCount s.failed s.model + 1 ∧
      ∀ r ∈ rounds, r.pending ≤ openCount s.failed s.model ∧
        r.searches ≤ s.model.properties.countP namesProperty + 1 := by
  induction fuel with
  | zero => exact fun s _ h => absurd h (Nat.not_lt_zero _)
  | succ fuel ih =>
    intro s hs hfuel
    obtain ⟨searches, hsearches, hloop⟩ := associationLoop_resolveAssociations rules true s.model
    rw [aliasRounds_succ]
    obtain ⟨s₁, hs₁⟩ : ∃ s₁ : AliasState,
        s₁ = { s with model := resolveAssociations rules true s.model } :=
      ⟨_, rfl⟩
    have hsound : Sound rules true s₁.model := hs₁ ▸ hs.resolveAssociations
    have hsame : s₁ = { s with model := s₁.model } := by rw [hs₁]
    have hcount : openCount s₁.failed s₁.model = openCount s.failed s.model := by
      rw [hs₁]
      exact openCount_resolveAssociations _ _
    have hfound : Run rules s s₁ := hs₁ ▸ run_associationRounds _ s
    have hloop : AssociationLoop rules true s.model searches s₁.model := hs₁ ▸ hloop
    rw [← hs₁]
    split
    next hnil =>
      refine ⟨[⟨0, searches⟩], .stop hsame hloop hnil, List.pairwise_singleton _ _, by
        simp, fun r hr => ?_⟩
      rw [List.mem_singleton.mp hr]
      exact ⟨Nat.zero_le _, hsearches⟩
    next hne =>
      have hrun := run_aliasRound rules hsound (fun p hp => (mem_pendingAliases.mp hp).1)
        (fun p hp => (mem_pendingAliases.mp hp).2.1) (nodup_pendingAliases hsound.numbered)
      have hless := openCount_aliasRound rules hsound hne
      rw [hcount] at hless
      have hpending : (pendingAliases s₁).length = openCount s.failed s.model :=
        (length_pendingAliases s₁).trans hcount
      have hnamed := Run.countP_namesProperty (hfound.trans hrun) hs
      obtain ⟨rounds, hrounds, hfewer, hlength, hbounds⟩ :=
        ih _ (Run.sound hrun hsound) (hless.trans_le (Nat.le_of_lt_succ hfuel))
      refine ⟨_, .again hsame hloop hne hrounds, List.pairwise_cons.mpr ⟨fun r hr => ?_, hfewer⟩,
        Nat.succ_le_succ (hlength.trans hless), fun r hr => ?_⟩
      · exact ((hbounds r hr).1.trans_lt hless).trans_eq hpending.symm
      · rcases List.mem_cons.mp hr with rfl | hr
        · exact ⟨hpending.le, hsearches⟩
        · exact ⟨(hbounds r hr).1.trans hless.le, (hbounds r hr).2.trans (Nat.succ_le_succ hnamed)⟩

/-- The fuel of `resolveAliases` is never used up. -/
theorem aliasLoop_resolveAliases (hs : Sound rules true m) :
    ∃ rounds, AliasLoop rules { model := m } rounds (resolveAliases rules m) ∧
      rounds.Pairwise (·.pending > ·.pending) ∧ rounds.length ≤ openCount [] m + 1 ∧
      ∀ r ∈ rounds, r.searches ≤ m.properties.countP namesProperty + 1 := by
  have hall : countsAsOpen [] = isOpenAlias := by
    funext p
    simp [countsAsOpen]
  have hfuel : openCount [] m < m.properties.countP isOpenAlias + 1 := by
    rw [openCount, hall]
    exact Nat.lt_succ_self _
  obtain ⟨rounds, hloop, hfewer, hlength, hbounds⟩ :=
    aliasLoop_aliasRounds _ { model := m } hs hfuel
  exact ⟨rounds, hloop, hfewer, hlength, fun r hr => (hbounds r hr).2⟩

/-! ### Counting in the drafts -/

/-- Linking by name changes nothing about what does not depend on what references point to. -/
theorem countP_linkNames {P : Property → Bool}
    (hP : ∀ m f p, P (resolveProperty m f p) = P p) (m : Model) :
    (linkNames m).model.properties.countP P = m.properties.countP P := by
  rw [(Model.perm_properties _).countP_eq, (Model.perm_properties m).countP_eq, linkNames_model]
  unfold noteUselessUses namedModel resolveReferences aliasedModel resolveFileAliases resolveUses
    Model.mapFiles
  simp only [List.flatMap_map, List.countP_flatMap]
  refine congrArg List.sum (List.map_congr_left fun d _ => ?_)
  show ((resolveReferencesOf _ _).properties).countP P = d.properties.countP P
  rw [properties_resolveReferencesOf, List.countP_map]
  exact List.countP_congr fun p _ => by rw [Function.comp_apply, hP]

theorem namesProperty_resolveProperty (m : Model) (f : ModelFile) (p : Property) :
    namesProperty (resolveProperty m f p) = namesProperty p := by
  obtain ⟨id, l, k⟩ := p
  cases k <;> rfl

/-- There are no more aliases open once names are linked than there are aliases in the drafts. -/
theorem openCount_linkNames_le (m : Model) :
    openCount [] (linkNames m).model ≤ m.properties.countP (·.alias?.isSome) := by
  rw [← countP_linkNames fun _ _ p => alias?_resolveProperty _ _ p]
  refine List.countP_mono_left fun p _ hp => isSome_alias?_of_open ?_
  simpa [countsAsOpen] using hp

end Linking

namespace Store

open Linking

variable {s : Store}

/-- **Linking any drafts comes to an end after a bounded number of rounds.**  Each round over the
aliases that is not the last has more of them pending than the next one, and there is at most one
round more than there are aliases in the drafts, whatever choices are put in place on the way.
Every search for the properties of associations, those between the rounds and the last one, makes at
most one round more than there are associations in the drafts that name a property. -/
theorem Reachable.rounds_bounded (h : s.Reachable) :
    (∃ rounds, AliasLoop s.naming { model := (linkNames s.draftModel).model } rounds
        (expanded s.naming s.draftModel) ∧
      rounds.Pairwise (·.pending > ·.pending) ∧
      rounds.length ≤ s.draftModel.properties.countP (·.alias?.isSome) + 1 ∧
      ∀ r ∈ rounds, r.searches ≤ s.draftModel.properties.countP namesProperty + 1) ∧
    ∃ n ≤ s.draftModel.properties.countP namesProperty + 1,
      AssociationLoop s.naming false (expanded s.naming s.draftModel).model n
        (associated s.naming s.draftModel) := by
  have hs := sound_named s.naming h.drafted.asLoaded
  have hrun : Run s.naming { model := (linkNames s.draftModel).model }
      (expanded s.naming s.draftModel) :=
    run_resolveAliases hs
  have hless := Run.countP_namesProperty hrun hs
  have hnamed := countP_linkNames namesProperty_resolveProperty s.draftModel
  constructor
  · obtain ⟨rounds, hloop, hfewer, hlength, hbounds⟩ := aliasLoop_resolveAliases hs
    refine ⟨rounds, hloop, hfewer, hlength.trans (Nat.succ_le_succ (openCount_linkNames_le _)),
      fun r hr => ?_⟩
    rw [← hnamed]
    exact hbounds r hr
  · obtain ⟨n, hn, hloop⟩ := associationLoop_resolveAssociations s.naming false
      (expanded s.naming s.draftModel).model
    refine ⟨n, hn.trans (Nat.succ_le_succ ?_), hloop⟩
    rw [← hnamed]
    exact hless

/-- A store with a class that names the property of another and takes all of its properties. -/
def namedAndTaken : Store :=
  loadAll {} [("A", "module: M\n---\nclass:\n name: A\n properties:\n - composition: A\n   name: X\n"
    ++ "---\nclass:\n name: B\n properties:\n - association: A\n   property: X\n - alias: {class: A}")]

/-- There one alias and one association with a property leave room for two rounds of each kind. -/
theorem rounds_bounded_in_namedAndTaken :
    namedAndTaken.Reachable ∧ namedAndTaken.draftModel.properties.countP (·.alias?.isSome) = 1 ∧
      namedAndTaken.draftModel.properties.countP namesProperty = 1 ∧
      (∃ rounds, AliasLoop namedAndTaken.naming
        { model := (linkNames namedAndTaken.draftModel).model } rounds
          (expanded namedAndTaken.naming namedAndTaken.draftModel) ∧
        rounds.Pairwise (·.pending > ·.pending) ∧ rounds.length ≤ 2 ∧
        ∀ r ∈ rounds, r.searches ≤ 2) ∧
      ∃ n ≤ 2, AssociationLoop namedAndTaken.naming false
        (expanded namedAndTaken.naming namedAndTaken.draftModel).model n
        (associated namedAndTaken.naming namedAndTaken.draftModel) := by
  have hreach : namedAndTaken.Reachable := reachable_loadAll {} _
  have hcounts : namedAndTaken.draftModel.properties.countP (·.alias?.isSome) = 1 ∧
      namedAndTaken.draftModel.properties.countP namesProperty = 1 := by
    have hspelled : namedAndTaken = _ :=
      loadAll_eq_foldl (.cons (toList_append_eq String.toList_ofList String.toList_ofList) .nil)
    rw [hspelled]
    decide +kernel
  obtain ⟨haliases, hnamed⟩ := hcounts
  have hbounded := Reachable.rounds_bounded hreach
  rw [haliases, hnamed] at hbounded
  exact ⟨hreach, haliases, hnamed, hbounded⟩

end Store

end EntityModel
