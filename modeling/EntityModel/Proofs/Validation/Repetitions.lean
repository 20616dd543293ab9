import EntityModel.Proofs.Linking.Outlines
import EntityModel.Proofs.Linking.ReportKinds
import Mathlib.Data.Finset.Card

/-!
# How often something is declared twice

Every declaration but the first of its key is reported, so there are as many reports as there are
declarations without a key of their own: together with the different keys they make up all
declarations (`length_repeated`).  Linking touches no key, and so the reports of a linked model are
counted on the drafts (`repetitions_link`).
-/

namespace EntityModel

namespace Validation

variable {α κ : Type} [BEq κ] [LawfulBEq κ] [DecidableEq κ]

/-- **Repetitions and different keys make up the whole list**, where the keys in `firsts` do not
count. -/
theorem length_repeatedFrom (key : α → κ) (as : List α) : ∀ firsts : List (κ × α),
    (repeatedFrom key firsts as).length
      + ((as.map key).toFinset \ (firsts.map Prod.fst).toFinset).card
      = as.length := by
  induction as with
  | nil => simp [repeatedFrom]
  | cons a rest ih =>
    intro firsts
    have hlookup : firsts.lookup (key a) = none ↔ key a ∉ (firsts.map Prod.fst).toFinset := by
      rw [List.lookup_eq_none_iff, List.mem_toFinset, List.mem_map]
      constructor
      · rintro h ⟨x, hx, he⟩
        simpa [he] using h x hx
      · intro h x hx
        simpa using fun he => h ⟨x, hx, he.symm⟩
    rw [repeatedFrom, List.map_cons, List.toFinset_cons, List.length_cons]
    cases hl : firsts.lookup (key a) with
    | some first =>
      have hmem : key a ∈ (firsts.map Prod.fst).toFinset := by
        by_contra hnot
        rw [hlookup.mpr hnot] at hl
        exact absurd hl (by simp)
      rw [Finset.insert_sdiff_of_mem _ hmem, List.length_cons, ← ih firsts]
      omega
    | none =>
      have hnot := hlookup.mp hl
      have hkeys : ((firsts ++ [(key a, a)]).map Prod.fst).toFinset
          = insert (key a) (firsts.map Prod.fst).toFinset := by
        rw [List.map_append, List.toFinset_append, List.map_singleton, List.toFinset_cons,
          List.toFinset_nil, Finset.union_comm]
        rfl
      have hsplit : insert (key a) (rest.map key).toFinset \ (firsts.map Prod.fst).toFinset
          = insert (key a) ((rest.map key).toFinset \
            ((firsts ++ [(key a, a)]).map Prod.fst).toFinset) := by
        rw [hkeys]
        ext k
        simp only [Finset.mem_sdiff, Finset.mem_insert]
        by_cases hk : k = key a
        · simp [hk, hnot]
        · simp [hk]
      have hfresh : key a ∉ (rest.map key).toFinset \
          ((firsts ++ [(key a, a)]).map Prod.fst).toFinset := by
        rw [hkeys]
        simp
      rw [hsplit, Finset.card_insert_of_notMem hfresh]
      exact congrArg (· + 1) (ih (firsts ++ [(key a, a)]))

/-- **Repetitions and different keys make up the whole list.** -/
theorem length_repeated (key : α → κ) (as : List α) :
    (repeated key as).length + (as.map key).toFinset.card = as.length := by
  have h := length_repeatedFrom key as []
  rwa [List.map_nil, List.toFinset_nil, Finset.sdiff_empty] at h

end Validation

/-! ### Keys -/

namespace Model

variable (m : Model)

/-- What classes are told apart by: module and name. -/
def classKeys : List (String × String) := m.classes.map fun c => (c.ns.modulePath, c.name.value)

def decoratorKeys : List (String × String) :=
  m.decorators.map fun d => (d.ns.modulePath, d.name.value)

def endpointKeys : List (String × String) :=
  m.endpoints.map fun e => (e.ns.modulePath, e.name.value)

def domainNames : List String := m.domains.map (·.name.value)

def trigrams : List String := m.classes.filterMap fun c => c.trigram.map (·.value)

/-- Keys and repetitions make up all declarations: so many repetitions are counted of each kind. -/
structure Repetitions (count : DiagnosticKind → Nat) : Prop where
  classes : count .duplicateClass + m.classKeys.toFinset.card = m.classKeys.length
  decorators : count .duplicateDecorator + m.decoratorKeys.toFinset.card = m.decoratorKeys.length
  domains : count .duplicateDomain + m.domainNames.toFinset.card = m.domainNames.length
  endpoints : count .duplicateEndpoint + m.endpointKeys.toFinset.card = m.endpointKeys.length
  trigrams : count .duplicateTrigram + m.trigrams.toFinset.card = m.trigrams.length

variable {m} {count count' : DiagnosticKind → Nat}

theorem Repetitions.congr (h : m.Repetitions count)
    (hcount : ∀ k ∈ Validation.repetitionKinds, count' k = count k) : m.Repetitions count' where
  classes := hcount .duplicateClass (by decide) ▸ h.classes
  decorators := hcount .duplicateDecorator (by decide) ▸ h.decorators
  domains := hcount .duplicateDomain (by decide) ▸ h.domains
  endpoints := hcount .duplicateEndpoint (by decide) ▸ h.endpoints
  trigrams := hcount .duplicateTrigram (by decide) ▸ h.trigrams

end Model

namespace Validation

theorem count_duplicates (m : Model) (k : DiagnosticKind) :
    (duplicates m).countP (·.kind == k)
      = (if k = .duplicateClass then (duplicateClasses m).length else 0)
        + (if k = .duplicateDecorator then (duplicateDecorators m).length else 0)
        + (if k = .duplicateDomain then (duplicateDomains m).length else 0)
        + (if k = .duplicateEndpoint then (duplicateEndpoints m).length else 0)
        + (if k = .duplicateTrigram then (duplicateTrigrams m).length else 0) := by
  simp only [duplicates, List.countP_append, (kinds_duplicateClasses m).count_of_single,
    (kinds_duplicateDecorators m).count_of_single, (kinds_duplicateDomains m).count_of_single,
    (kinds_duplicateEndpoints m).count_of_single, (kinds_duplicateTrigrams m).count_of_single]

/-- Whatever is said of repetitions, it is said once for each. -/
theorem length_map_repeated {α κ : Type} [BEq κ] [LawfulBEq κ] [DecidableEq κ]
    (key : α → κ) (as : List α) (report : α × α → Diagnostic) :
    ((repeated key as).map report).length + (as.map key).toFinset.card = (as.map key).length := by
  rw [List.length_map, List.length_map]
  exact length_repeated key as

theorem trigrams_eq (m : Model) :
    m.trigrams = (withTrigrams m).map fun (_, trigram) => trigram.value := by
  rw [Model.trigrams, withTrigrams, List.map_filterMap]
  simp only [Option.map_map]
  rfl

/-- **What is declared twice in a model is reported once for each repetition.** -/
theorem repetitions_duplicates (m : Model) :
    m.Repetitions fun k => (duplicates m).countP (·.kind == k) := by
  have hclasses : (duplicateClasses m).length + m.classKeys.toFinset.card = m.classKeys.length :=
    length_map_repeated _ _ _
  have hdecorators : (duplicateDecorators m).length + m.decoratorKeys.toFinset.card
      = m.decoratorKeys.length :=
    length_map_repeated _ _ _
  have hdomains : (duplicateDomains m).length + m.domainNames.toFinset.card
      = m.domainNames.length :=
    length_map_repeated _ _ _
  have hendpoints : (duplicateEndpoints m).length + m.endpointKeys.toFinset.card
      = m.endpointKeys.length :=
    length_map_repeated _ _ _
  have htrigrams : (duplicateTrigrams m).length + m.trigrams.toFinset.card = m.trigrams.length := by
    rw [trigrams_eq]
    exact length_map_repeated _ _ _
  refine ⟨?_, ?_, ?_, ?_, ?_⟩ <;> simpa [count_duplicates]

end Validation

/-! ### The drafts -/

namespace Linking

variable {rules : NamingRules} {m : Model}

theorem keys_link (rules : NamingRules) (h : m.AsLoaded) :
    (m.link rules).model.classKeys = m.classKeys ∧
    (m.link rules).model.decoratorKeys = m.decoratorKeys ∧
    (m.link rules).model.domainNames = m.domainNames ∧
    (m.link rules).model.endpointKeys = m.endpointKeys ∧
    (m.link rules).model.trigrams = m.trigrams := by
  have ho := outlines_link rules h
  have htrigrams : (m.link rules).model.classes.map Class.trigram = m.classes.map Class.trigram :=
    Model.declared_of_outlines Class.outline (fun _ => rfl) (fun _ => rfl) ho
  refine ⟨Model.declared_of_outlines Class.outline (fun _ => rfl) (fun _ => rfl) ho,
    Model.declared_of_outlines Decorator.frame (fun _ => rfl) (fun _ => rfl) ho,
    Model.declared_of_outlines Domain.outline (fun _ => rfl) (fun _ => rfl) ho,
    Model.declared_of_outlines Endpoint.frame (fun _ => rfl) (fun _ => rfl) ho, ?_⟩
  have hmap : ∀ m : Model, m.trigrams = (m.classes.map Class.trigram).filterMap (·.map (·.value)) :=
    fun m => by
    rw [List.filterMap_map]
    rfl
  rw [hmap, hmap, htrigrams]

/-- **Linking reports each repetition among the drafts once**, and nothing else as a repetition. -/
theorem repetitions_link (rules : NamingRules) (h : m.AsLoaded) :
    m.Repetitions fun k => (m.link rules).problems.countP (·.kind == k) := by
  obtain ⟨hclasses, hdecorators, hdomains, hendpoints, htrigrams⟩ := keys_link rules h
  have hlinked := Validation.repetitions_duplicates (m.link rules).model
  have hdrafts : m.Repetitions fun k =>
      (Validation.duplicates (m.link rules).model).countP (·.kind == k) := by
    refine ⟨?_, ?_, ?_, ?_, ?_⟩
    · rw [← hclasses]
      exact hlinked.classes
    · rw [← hdecorators]
      exact hlinked.decorators
    · rw [← hdomains]
      exact hlinked.domains
    · rw [← hendpoints]
      exact hlinked.endpoints
    · rw [← htrigrams]
      exact hlinked.trigrams
  exact hdrafts.congr fun k hk => count_link rules h hk

end Linking

end EntityModel
