import EntityModel.Proofs.Linking.Persistence
import EntityModel.Proofs.Mirroring.Aliases
import Mathlib.Dynamics.FixedPoints.Basic

/-!
# Rounds as fixpoints

How many rounds linking makes depends on the whole model, and so cannot be compared between models
that agree in a part only.  What the rounds come to does not: a round over a model that is done
changes nothing, so any larger number of rounds comes to the same
(`resolveAssociations_eq_iterate`).  As long as no error is reported, one round over the aliases is
a function on models too (`quietRound`), and the aliases are resolved by repeating it
(`iterate_of_no_errors`).
-/

namespace EntityModel

namespace Model

variable {m : Model}

/-- A change that leaves every list of properties alone leaves the model alone. -/
theorem mapLists_eq_self {lists : PropertyOwner → List Property → List Property}
    {returns : Property → Property}
    (hl : ∀ o ps, (o, ps) ∈ m.owned → changedList lists returns o ps = ps) :
    m.mapLists lists returns = m := by
  have hc : ∀ f ∈ m.files, ∀ c ∈ f.classes, lists (.cls c.id) c.properties = c.properties := by
    intro f hf c hc
    refine hl (.cls c.id) _ ?_
    simp only [owned, List.mem_append, List.mem_map]
    exact Or.inl (Or.inl ⟨c, List.mem_flatMap.mpr ⟨f, hf, hc⟩, rfl⟩)
  have hd : ∀ f ∈ m.files, ∀ d ∈ f.decorators,
      lists (.decorator d.id) d.properties = d.properties := by
    intro f hf d hd
    refine hl (.decorator d.id) _ ?_
    simp only [owned, List.mem_append, List.mem_map]
    exact Or.inl (Or.inr ⟨d, List.mem_flatMap.mpr ⟨f, hf, hd⟩, rfl⟩)
  have he : ∀ f ∈ m.files, ∀ e ∈ f.endpoints, e.mapParts (lists (.params e.id)) returns = e := by
    intro f hf e he
    have hmem : e ∈ m.endpoints := List.mem_flatMap.mpr ⟨f, hf, he⟩
    have hparams : lists (.params e.id) e.params = e.params := by
      refine hl (.params e.id) _ ?_
      simp only [owned, List.mem_append, List.mem_flatMap]
      exact Or.inr ⟨e, hmem, List.mem_cons_self⟩
    have hreturns : e.returns.toList.map returns = e.returns.toList := by
      refine hl (.returns e.id) _ ?_
      simp only [owned, List.mem_append, List.mem_flatMap]
      exact Or.inr ⟨e, hmem, List.mem_cons_of_mem _ List.mem_cons_self⟩
    unfold Endpoint.mapParts
    rw [hparams]
    cases hr : e.returns with
    | none => rw [Option.map_none, ← hr]
    | some p =>
      rw [hr] at hreturns
      rw [Option.map_some, show returns p = p from List.cons.inj hreturns |>.1, ← hr]
  have hsame : ∀ {α : Type} {as : List α} {g : α → α}, (∀ a ∈ as, g a = a) →
      as.map g = as := fun h =>
    (List.map_congr_left h).trans (List.map_id' _)
  unfold Model.mapLists mapFiles
  refine congrArg Model.mk (hsame fun f hf => ?_)
  unfold ModelFile.mapLists
  rw [hsame fun d h => by rw [hd f hf d h], hsame fun c h => by rw [hc f hf c h], hsame (he f hf)]

theorem mapProperties_eq_self {g : Property → Property} (h : ∀ p ∈ m.properties, g p = p) :
    m.mapProperties g = m := by
  refine mapLists_eq_self fun o ps ho => ?_
  have hps : ps.map g = ps :=
    (List.map_congr_left fun p hp => h p (mem_properties_iff.mpr ⟨o, ps, ho, hp⟩)).trans
      (List.map_id' _)
  cases o <;> exact hps

end Model

namespace Linking

variable {rules : NamingRules} {settled : Bool} {m : Model}

/-! ### Rounds over associations -/

def openTargets (m : Model) : Nat := m.properties.countP fun p => (openTarget p).isSome

theorem withAssociationTarget_none (p : Property) : withAssociationTarget none p = p := by
  unfold withAssociationTarget
  split <;> simp_all

theorem associationRound_eq_self
    (h : ¬ m.properties.any (fun p => (associationTarget m rules settled p).isSome) = true) :
    associationRound m rules settled = m := by
  refine Model.mapProperties_eq_self fun p hp => ?_
  have hnone : associationTarget m rules settled p = none := by
    by_contra hsome
    exact h (List.any_eq_true.mpr ⟨p, hp, Option.isSome_iff_ne_none.mpr hsome⟩)
  rw [hnone, withAssociationTarget_none]

theorem openTarget_withAssociationTarget {p : Property}
    (h : (openTarget (withAssociationTarget (associationTarget m rules settled p) p)).isSome
      = true) :
    withAssociationTarget (associationTarget m rules settled p) p = p := by
  rcases withAssociationTarget_cases m rules settled p with he | ⟨a, r, C, t, -, -, hC, -, -, -, he⟩
  · exact he
  · rw [he] at h
    simp [openTarget, Property.association?, hC, Reference.resolve] at h

theorem openTargets_associationRound
    (h : m.properties.any (fun p => (associationTarget m rules settled p).isSome) = true) :
    openTargets (associationRound m rules settled) < openTargets m := by
  obtain ⟨p, hp, hfound⟩ := List.any_eq_true.mp h
  unfold openTargets associationRound
  rw [Model.properties_mapProperties, List.map_eq_flatMap]
  refine countP_flatMap_lt _ (fun q _ => ?_) hp ?_ ?_
  · rw [List.countP_singleton]
    split
    next hq =>
      rw [openTarget_withAssociationTarget hq] at hq
      rw [if_pos hq]
    · exact Nat.zero_le _
  · obtain ⟨t, ht⟩ := Option.isSome_iff_exists.mp hfound
    obtain ⟨C, r, ho, -⟩ := associationTarget_eq_some.mp ht
    rw [ho]
    rfl
  · obtain ⟨t, ht⟩ := Option.isSome_iff_exists.mp hfound
    obtain ⟨C, r, ho, -⟩ := associationTarget_eq_some.mp ht
    obtain ⟨a, hk, hr, hC, -⟩ := openTarget_eq_some.mp ho
    simp [ht, withAssociationTarget, hk, hr, openTarget, Property.association?, hC,
      Reference.resolve]

theorem associationRounds_eq_iterate (fuel : Nat) : ∀ m : Model, openTargets m < fuel → ∀ n ≥ fuel,
    associationRounds rules settled fuel m = (associationRound · rules settled)^[n] m := by
  induction fuel with
  | zero => exact fun m h => absurd h (Nat.not_lt_zero _)
  | succ fuel ih =>
    intro m h n hn
    unfold associationRounds
    split
    next hany =>
      obtain ⟨n, rfl⟩ : ∃ k, n = k + 1 := ⟨n - 1, by omega⟩
      rw [Function.iterate_succ_apply]
      exact ih _ ((openTargets_associationRound hany).trans_le (Nat.le_of_lt_succ h)) n (by omega)
    next hnone =>
      have hfixed : (associationRound · rules settled) m = m := associationRound_eq_self hnone
      exact (Function.iterate_fixed (f := (associationRound · rules settled)) hfixed n).symm

/-- **Resolving the associations is repeating the round often enough.** -/
theorem resolveAssociations_eq_iterate (rules : NamingRules) (settled : Bool) (m : Model) {n : Nat}
    (h : openTargets m < n) :
    resolveAssociations rules settled m = (associationRound · rules settled)^[n] m :=
  associationRounds_eq_iterate _ m (Nat.lt_succ_self _) n h

/-- A round over associations that are resolved changes nothing. -/
theorem associationRound_resolveAssociations (rules : NamingRules) (settled : Bool) (m : Model) :
    associationRound (resolveAssociations rules settled m) rules settled
      = resolveAssociations rules settled m := by
  have hn := Nat.lt_succ_self (openTargets m)
  have hlater := resolveAssociations_eq_iterate rules settled m (Nat.lt_succ_of_lt hn)
  rwa [Function.iterate_succ_apply', ← resolveAssociations_eq_iterate rules settled m hn, eq_comm]
    at hlater

/-- Nothing is left to do once the associations are resolved. -/
theorem resolveAssociations_resolveAssociations (rules : NamingRules) (settled : Bool) (m : Model) :
    resolveAssociations rules settled (resolveAssociations rules settled m)
      = resolveAssociations rules settled m := by
  have hfixed := associationRound_resolveAssociations rules settled m
  generalize resolveAssociations rules settled m = r at hfixed
  rw [resolveAssociations_eq_iterate rules settled r (Nat.lt_succ_self _)]
  exact Function.iterate_fixed (f := (associationRound · rules settled)) hfixed _

theorem associationTarget_resolveAssociations (rules : NamingRules) (settled : Bool) (m : Model)
    {p : Property} (hp : p ∈ (resolveAssociations rules settled m).properties) :
    associationTarget (resolveAssociations rules settled m) rules settled p = none := by
  have hfixed := associationRound_resolveAssociations rules settled m
  generalize resolveAssociations rules settled m = r at hfixed hp
  by_contra hsome
  have hfound : r.properties.any (fun p => (associationTarget r rules settled p).isSome) = true :=
    List.any_eq_true.mpr ⟨p, hp, Option.isSome_iff_ne_none.mpr hsome⟩
  have hless := openTargets_associationRound hfound
  rw [hfixed] at hless
  exact absurd hless (Nat.lt_irrefl _)

/-! ### Rounds over aliases -/

/-- A round in which nothing goes wrong: the associations are resolved, then all is done that is
found for the open aliases. -/
def quietRound (rules : NamingRules) (m : Model) : Model :=
  carryOut (resolveAssociations rules true m) (stepsOf rules (resolveAssociations rules true m)
    (pendingAliases { model := resolveAssociations rules true m }))

theorem applyExpansions_nil (hm : m.Numbered) : applyExpansions m [] = m := by
  have hself : spliced [] = fun p => [p] := rfl
  rw [applyExpansions_eq_mapLists, hself]
  refine Model.mapLists_eq_self fun o ps ho => ?_
  have hone : renumber o (ps.flatMap fun p => [p]) = ps := by
    rw [List.flatMap_singleton', renumber_of_positional (hm.properties o ps ho)]
  cases o with
  | returns e => exact List.map_id' ps
  | _ => exact hone

theorem quietRound_of_done (hs : Sound rules true m)
    (h : pendingAliases { model := resolveAssociations rules true m } = []) :
    quietRound rules m = resolveAssociations rules true m := by
  unfold quietRound
  rw [h]
  exact applyExpansions_nil hs.resolveAssociations.numbered

/-- The model comes from `D` by rounds, and the next round finds nothing wrong. -/
structure Calm (rules : NamingRules) (D m : Model) : Prop where
  sound : Sound rules true m
  stems : Stems D m
  frame : Model.SameFrame D m
  problems : ∀ p ∈ pendingAliases { model := resolveAssociations rules true m },
    (propertyStep (resolveAssociations rules true m) rules p).problems = []
  outcome : ∀ p ∈ pendingAliases { model := resolveAssociations rules true m },
    (propertyStep (resolveAssociations rules true m) rules p).outcome ≠ .failed

theorem calm_of_done {D : Model} (hs : Sound rules true m) (hstems : Stems D m)
    (hframe : Model.SameFrame D m)
    (h : pendingAliases { model := resolveAssociations rules true m } = []) : Calm rules D m :=
  ⟨hs, hstems, hframe, by simp [h], by simp [h]⟩

/-- **A round over the aliases that reports no error is the quiet one.** -/
theorem quiet_aliasRound {D : Model} (hD : ReferencesKnown D) (hs : Sound rules true m)
    (hstems : Stems D m) (hne : pendingAliases { model := resolveAssociations rules true m } ≠ [])
    (hnone : ∀ d ∈ (aliasRound rules { model := resolveAssociations rules true m }
      (pendingAliases { model := resolveAssociations rules true m })).problems, d.isError = false) :
    Quiet rules (resolveAssociations rules true m)
        (pendingAliases { model := resolveAssociations rules true m }) ∧
      aliasRound rules { model := resolveAssociations rules true m }
        (pendingAliases { model := resolveAssociations rules true m })
          = { model := quietRound rules m } := by
  have hsa := hs.resolveAssociations
  have hstemsa : Stems D (resolveAssociations rules true m) :=
    hstems.trans (stems_associationRounds _ _ _ _)
  have hp := openAliases_pending (s := { model := resolveAssociations rules true m }) hsa.numbered
  have hq : Quiet rules (resolveAssociations rules true m)
      (pendingAliases { model := resolveAssociations rules true m }) :=
    quiet_of_no_errors hsa hp hne
      (fun p hpend a hk => (hstemsa.referencesKnown hD).cls (hp.mem p hpend) hk) hnone
  exact ⟨hq, aliasRound_of_quiet hsa hp hq⟩

/-- **As long as the rounds over the aliases report no error they are quiet**, and come to the model
that repeating quiet rounds comes to. -/
theorem iterate_aliasRounds {D : Model} (hD : ReferencesKnown D) (fuel : Nat) : ∀ m : Model,
    Sound rules true m → Stems D m → Model.SameFrame D m → openCount [] m < fuel →
    (∀ d ∈ (aliasRounds rules fuel { model := m }).problems, d.isError = false) →
    (∀ n, Calm rules D ((quietRound rules)^[n] m)) ∧
      ∀ n ≥ fuel, (aliasRounds rules fuel { model := m }).model = (quietRound rules)^[n] m := by
  induction fuel with
  | zero => exact fun m _ _ _ h => absurd h (Nat.not_lt_zero _)
  | succ fuel ih =>
    intro m hs hstems hframe hcount hnone
    have hsa := hs.resolveAssociations
    have hstemsa : Stems D (resolveAssociations rules true m) :=
      hstems.trans (stems_associationRounds _ _ _ _)
    have hframea : Model.SameFrame D (resolveAssociations rules true m) :=
      hframe.trans (sameFrame_associationRounds _ _ _)
    rw [aliasRounds_succ] at hnone ⊢
    by_cases hne : pendingAliases { model := resolveAssociations rules true m } = []
    · -- nothing is open: the first round resolves associations, the others change nothing
      have hdone : ∀ n, (quietRound rules)^[n + 1] m = resolveAssociations rules true m := by
        intro n
        have hnext : pendingAliases
            { model := resolveAssociations rules true (resolveAssociations rules true m) }
              = [] := by
          rw [resolveAssociations_resolveAssociations]
          exact hne
        have hfixed : quietRound rules (resolveAssociations rules true m)
            = resolveAssociations rules true m := by
          rw [quietRound_of_done hsa hnext, resolveAssociations_resolveAssociations]
        rw [Function.iterate_succ_apply, quietRound_of_done hs hne]
        exact Function.iterate_fixed hfixed n
      rw [if_pos hne]
      refine ⟨fun n => ?_, fun n hn => ?_⟩
      · cases n with
        | zero => exact calm_of_done hs hstems hframe hne
        | succ n =>
          rw [hdone]
          refine calm_of_done hsa hstemsa hframea ?_
          rw [resolveAssociations_resolveAssociations]
          exact hne
      · obtain ⟨n, rfl⟩ : ∃ k, n = k + 1 := ⟨n - 1, by omega⟩
        rw [hdone]
    · rw [if_neg hne] at hnone ⊢
      have hp := openAliases_pending
        (s := { model := resolveAssociations rules true m }) hsa.numbered
      have hrun := run_aliasRound (s := { model := resolveAssociations rules true m }) rules hsa
        hp.mem hp.opened hp.nodup
      obtain ⟨hq, hround⟩ := quiet_aliasRound hD hs hstems hne fun d hd =>
        hnone d (Run.problems_subset (run_aliasRounds fuel _ (Run.sound hrun hsa)) hd)
      have hless := openCount_aliasRound rules
        (s := { model := resolveAssociations rules true m }) hsa hne
      rw [openCount_resolveAssociations] at hless
      rw [hround] at hnone hless hrun ⊢
      have hsound := Run.sound hrun hsa
      have hstem := Run.stems hrun hsa
      have hsame := Run.sameFrame hrun
      obtain ⟨hcalm, heq⟩ :=
        ih (quietRound rules m) hsound (hstemsa.trans hstem) (hframea.trans hsame)
          (hless.trans_le (Nat.le_of_lt_succ hcount)) hnone
      refine ⟨fun n => ?_, fun n hn => ?_⟩
      · cases n with
        | zero => exact ⟨hs, hstems, hframe, hq.problems, hq.outcome⟩
        | succ n => exact hcalm n
      · obtain ⟨n, rfl⟩ : ∃ k, n = k + 1 := ⟨n - 1, by omega⟩
        exact heq n (by omega)

/-- **Resolving aliases without errors is repeating the quiet round often enough.** -/
theorem iterate_of_no_errors (hs : Sound rules true m) (hknown : ReferencesKnown m)
    (hnone : ∀ d ∈ (resolveAliases rules m).problems, d.isError = false) :
    (∀ n, Calm rules m ((quietRound rules)^[n] m)) ∧
      ∃ fuel, ∀ n ≥ fuel, (resolveAliases rules m).model = (quietRound rules)^[n] m := by
  have hall : countsAsOpen [] = isOpenAlias := by
    funext p
    simp [countsAsOpen]
  obtain ⟨hcalm, heq⟩ :=
    iterate_aliasRounds hknown (m.properties.countP isOpenAlias + 1) m hs (.refl m) (.refl m)
      (by rw [openCount, hall]; exact Nat.lt_succ_self _) hnone
  exact ⟨hcalm, _, heq⟩

end Linking

end EntityModel
