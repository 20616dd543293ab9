import EntityModel.Proofs.Linking.Accounted

/-!
# Which kinds of problems are reported where

Every stage of linking, and every check of the linked model, reports problems of a few kinds of its
own (`OfKinds`, `reportParts`).  So what linking reports of a kind is what those parts report that
may be of it (`filter_link_kind`), and a kind that one check alone reports is reported by linking as
often as by that check (`count_link`).
-/

namespace EntityModel

/-- Whatever is reported is of one of the kinds. -/
def OfKinds (kinds : List DiagnosticKind) (ds : List Diagnostic) : Prop :=
  ∀ d ∈ ds, kinds.contains d.kind = true

namespace OfKinds

variable {kinds : List DiagnosticKind} {ds es : List Diagnostic}

theorem nil : OfKinds kinds [] := fun _ h => absurd h List.not_mem_nil

theorem append (hd : OfKinds kinds ds) (he : OfKinds kinds es) : OfKinds kinds (ds ++ es) :=
  fun x hx => (List.mem_append.mp hx).elim (hd x) (he x)

theorem flatMap {α : Type} {as : List α} {g : α → List Diagnostic}
    (h : ∀ a ∈ as, OfKinds kinds (g a)) :
    OfKinds kinds (as.flatMap g) := by
  intro d hd
  obtain ⟨a, ha, hd⟩ := List.mem_flatMap.mp hd
  exact h a ha d hd

theorem map {α : Type} {as : List α} {g : α → Diagnostic}
    (h : ∀ a ∈ as, kinds.contains (g a).kind = true) : OfKinds kinds (as.map g) := by
  intro d hd
  obtain ⟨a, ha, rfl⟩ := List.mem_map.mp hd
  exact h a ha

theorem filterMap {α : Type} {as : List α} {g : α → Option Diagnostic}
    (h : ∀ a ∈ as, ∀ d, g a = some d → kinds.contains d.kind = true) :
    OfKinds kinds (as.filterMap g) := by
  intro d hd
  obtain ⟨a, ha, hd⟩ := List.mem_filterMap.mp hd
  exact h a ha d hd

theorem ite {c : Prop} [Decidable c] (hd : OfKinds kinds ds) (he : OfKinds kinds es) :
    OfKinds kinds (if c then ds else es) := by
  split
  · exact hd
  · exact he

theorem singleton {d : Diagnostic} (h : kinds.contains d.kind = true) : OfKinds kinds [d] := by
  intro x hx
  rw [List.mem_singleton.mp hx]
  exact h

theorem mono {more : List DiagnosticKind} (h : OfKinds kinds ds) (hsub : kinds ⊆ more) :
    OfKinds more ds := by
  intro d hd
  have hmem := h d hd
  rw [List.contains_iff_mem] at hmem ⊢
  exact hsub hmem

theorem count_eq_zero (h : OfKinds kinds ds) {k : DiagnosticKind} (hk : k ∉ kinds) :
    ds.countP (·.kind == k) = 0 := by
  rw [List.countP_eq_zero]
  intro d hd hdk
  rw [← beq_iff_eq.mp hdk, ← List.contains_iff_mem] at hk
  exact hk (h d hd)

theorem filter_eq_nil (h : OfKinds kinds ds) {k : DiagnosticKind} (hk : k ∉ kinds) :
    ds.filter (·.kind == k) = [] :=
  List.filter_eq_nil_iff.mpr (List.countP_eq_zero.mp (h.count_eq_zero hk))

theorem filter_eq_self {k : DiagnosticKind} (h : OfKinds [k] ds) : ds.filter (·.kind == k) = ds :=
  List.filter_eq_self.mpr fun d hd => by simpa using h d hd

theorem count_of_single {k' : DiagnosticKind} (h : OfKinds [k'] ds) (k : DiagnosticKind) :
    ds.countP (·.kind == k) = if k = k' then ds.length else 0 := by
  split
  next he =>
    rw [List.countP_eq_length]
    intro d hd
    simpa [he] using h d hd
  next hne => exact h.count_eq_zero (by simpa using hne)

end OfKinds

namespace Linking

/-! ### By name -/

theorem kinds_useProblemsFrom (uses : List FileReference) :
    ∀ seen, OfKinds [.duplicateUse, .fileNotFound] (useProblemsFrom seen uses) := by
  induction uses with
  | nil => exact fun _ => .nil
  | cons use rest ih =>
    intro seen
    exact .append (.ite (.singleton rfl) (.ite (.singleton rfl) .nil)) (ih _)

theorem kinds_useProblems (m : Model) : OfKinds [.duplicateUse, .fileNotFound] (useProblems m) :=
  .flatMap fun f _ => kinds_useProblemsFrom f.uses []

theorem kinds_circularUses (m : Model) : OfKinds [.circularDependency] (circularUses m) :=
  .map fun _ _ => rfl

theorem kinds_aliasProblems (a : Alias) :
    OfKinds [.fileNotFound, .classNotFound, .endpointNotFound] (aliasProblems a) := by
  unfold aliasProblems
  split
  · exact .singleton rfl
  · exact .append (.map fun _ _ => rfl) (.map fun _ _ => rfl)

theorem kinds_referenceProblems (m : Model) :
    OfKinds [.classNotFound, .decoratorNotFound, .domainNotFound] (referenceProblems m) := by
  refine .flatMap fun f _ => .map fun x _ => ?_
  cases x <;> rfl

theorem kinds_inheritanceCycles (m : Model) :
    OfKinds [.circularInheritance] (inheritanceCycles m) := by
  refine .filterMap fun c _ d hd => ?_
  obtain ⟨r, -, hd⟩ := Option.bind_eq_some_iff.mp hd
  split at hd
  · obtain rfl := Option.some.inj hd
    rfl
  · simp at hd

/-- The kinds of what is reported while names are looked up. -/
def nameKinds : List DiagnosticKind :=
  [.duplicateUse, .fileNotFound, .circularDependency, .classNotFound, .endpointNotFound,
    .decoratorNotFound, .domainNotFound, .circularInheritance]

theorem kinds_linkNames (m : Model) : OfKinds nameKinds (linkNames m).problems := by
  refine .append (.append (.append (.append ?_ ?_) ?_) ?_) ?_
  · exact (kinds_useProblems _).mono (by decide)
  · exact (kinds_circularUses _).mono (by decide)
  · exact .flatMap fun f _ => .flatMap fun a _ => (kinds_aliasProblems a).mono (by decide)
  · exact (kinds_referenceProblems _).mono (by decide)
  · exact (kinds_inheritanceCycles _).mono (by decide)

/-! ### Properties -/

theorem kinds_expanded (rules : NamingRules) {m : Model} (h : m.AsLoaded) :
    OfKinds [.propertyNotFound, .circularAlias] (expanded rules m).problems := by
  intro d hd
  obtain ⟨p, -, -, hreported⟩ :=
    Run.reported (run_resolveAliases (sound_named rules h)) (sound_named rules h) rfl d hd
  rcases hreported.kind with hk | hk <;> rw [hk] <;> rfl

theorem kinds_associationProblems (m : Model) :
    OfKinds [.propertyNotFound] (associationProblems m) := by
  refine .filterMap fun p _ d hd => ?_
  obtain ⟨x, -, hd⟩ := Option.bind_eq_some_iff.mp hd
  obtain rfl := Option.some.inj hd
  rfl

theorem kinds_propertyReferenceProblems (m : Model) :
    OfKinds [.propertyNotFound, .uniqueKeyPropertyNotFound] (propertyReferenceProblems m) :=
  .flatMap fun _ _ =>
    .append (.append (.map fun _ _ => rfl) (.map fun _ _ => rfl)) (.map fun _ _ => rfl)

theorem kinds_asDomainProblems (m : Model) : OfKinds [.asDomainNotFound] (asDomainProblems m) := by
  refine .filterMap fun p _ d hd => ?_
  obtain ⟨word, -, hd⟩ := Option.bind_eq_some_iff.mp hd
  obtain ⟨id, -, hd⟩ := Option.bind_eq_some_iff.mp hd
  obtain ⟨domain, -, hd⟩ := Option.bind_eq_some_iff.mp hd
  split at hd
  · simp at hd
  · obtain rfl := Option.some.inj hd
    rfl

theorem kinds_unusedProblems (m : Model) :
    OfKinds [.unusedImport, .unusedDomain] (unusedProblems m) :=
  .flatMap fun _ _ => .append (.map fun _ _ => rfl) (.map fun _ _ => rfl)

end Linking

/-! ### What is wrong with the linked model -/

namespace Validation

def repetitionKinds : List DiagnosticKind :=
  [.duplicateClass, .duplicateDecorator, .duplicateDomain, .duplicateEndpoint, .duplicateTrigram]

theorem kinds_duplicateClasses (m : Model) : OfKinds [.duplicateClass] (duplicateClasses m) :=
  .map fun _ _ => rfl

theorem kinds_duplicateDecorators (m : Model) :
    OfKinds [.duplicateDecorator] (duplicateDecorators m) :=
  .map fun _ _ => rfl

theorem kinds_duplicateDomains (m : Model) : OfKinds [.duplicateDomain] (duplicateDomains m) :=
  .map fun _ _ => rfl

theorem kinds_duplicateEndpoints (m : Model) :
    OfKinds [.duplicateEndpoint] (duplicateEndpoints m) :=
  .map fun _ _ => rfl

theorem kinds_duplicateTrigrams (m : Model) : OfKinds [.duplicateTrigram] (duplicateTrigrams m) :=
  .map fun _ _ => rfl

theorem kinds_duplicates (m : Model) : OfKinds repetitionKinds (duplicates m) :=
  .append (.append (.append (.append ((kinds_duplicateClasses m).mono (by decide))
    ((kinds_duplicateDecorators m).mono (by decide))) ((kinds_duplicateDomains m).mono (by decide)))
    ((kinds_duplicateEndpoints m).mono (by decide))) ((kinds_duplicateTrigrams m).mono (by decide))

def partKinds : List DiagnosticKind :=
  [.compositePrimaryKey, .duplicateProperty, .decoratorExtendsConflict, .missingRequiredValue,
    .invalidAssociationTarget, .invalidParameterOrder]

theorem kinds_classProblems (m : Model) (rules : NamingRules) (c : Class) :
    OfKinds [.compositePrimaryKey, .duplicateProperty, .decoratorExtendsConflict,
      .missingRequiredValue] (classProblems m rules c) := by
  refine .append (.append (.append ?_ ?_) ?_) ?_
  · refine .ite .nil ?_
    split
    · exact .singleton rfl
    · exact .nil
  · exact .map fun _ _ => rfl
  · unfold severalBases
    split
    · exact .singleton rfl
    · exact .nil
  · exact .flatMap fun _ _ => .map fun _ _ => rfl

theorem kinds_associationProblem (m : Model) (ps : List Property) :
    OfKinds [.invalidAssociationTarget] (ps.filterMap (associationProblem m)) := by
  refine .filterMap fun p _ d hd => ?_
  obtain ⟨a, -, hd⟩ := Option.bind_eq_some_iff.mp hd
  obtain ⟨target, -, hd⟩ := Option.bind_eq_some_iff.mp hd
  split at hd
  · simp at hd
  · obtain rfl := Option.some.inj hd
    rfl

theorem kinds_parameterProblems (m : Model) (rules : NamingRules) (e : Endpoint) :
    OfKinds [.invalidParameterOrder] (parameterProblems m rules e) := .map fun _ _ => rfl

def partProblems (m : Model) (rules : NamingRules) : List Diagnostic :=
  m.classes.flatMap (classProblems m rules) ++ m.properties.filterMap (associationProblem m)
    ++ m.endpoints.flatMap (parameterProblems m rules)

theorem problems_eq (m : Model) (rules : NamingRules) :
    problems m rules = duplicates m ++ partProblems m rules := by
  simp only [problems, partProblems, List.append_assoc]

theorem kinds_partProblems (m : Model) (rules : NamingRules) :
    OfKinds partKinds (partProblems m rules) := by
  refine .append (.append ?_ ?_) ?_
  · exact .flatMap fun c _ => (kinds_classProblems m rules c).mono (by decide)
  · exact (kinds_associationProblem m _).mono (by decide)
  · exact .flatMap fun e _ => (kinds_parameterProblems m rules e).mono (by decide)

theorem filter_parameterOrder (m : Model) (rules : NamingRules) :
    (partProblems m rules).filter (·.kind == .invalidParameterOrder)
      = m.endpoints.flatMap (parameterProblems m rules) := by
  have hclasses := OfKinds.flatMap fun c (_ : c ∈ m.classes) => kinds_classProblems m rules c
  have hassociations := kinds_associationProblem m m.properties
  have hendpoints :=
    OfKinds.flatMap fun e (_ : e ∈ m.endpoints) => kinds_parameterProblems m rules e
  rw [partProblems, List.filter_append, List.filter_append, hclasses.filter_eq_nil (by decide),
    hassociations.filter_eq_nil (by decide), hendpoints.filter_eq_self, List.nil_append,
    List.nil_append]

end Validation

namespace Linking

open Validation

variable {rules : NamingRules} {m : Model}

/-- What linking reports, part by part, each with the kinds that it may be of. -/
def reportParts (rules : NamingRules) (m : Model) : List (List DiagnosticKind × List Diagnostic) :=
  [([.duplicateUse, .fileNotFound], useProblems (resolveUses m)),
    ([.circularDependency], circularUses (resolveUses m)),
    ([.fileNotFound, .classNotFound, .endpointNotFound], fileAliasProblems (aliasedModel m)),
    ([.classNotFound, .decoratorNotFound, .domainNotFound], referenceProblems (namedModel m)),
    ([.circularInheritance], inheritanceCycles (namedModel m)),
    ([.propertyNotFound, .circularAlias], (expanded rules m).problems),
    ([.propertyNotFound], associationProblems (associated rules m)),
    ([.propertyNotFound, .uniqueKeyPropertyNotFound],
      propertyReferenceProblems (m.link rules).model),
    ([.asDomainNotFound], asDomainProblems (m.link rules).model),
    (repetitionKinds, duplicates (m.link rules).model),
    (partKinds, partProblems (m.link rules).model rules),
    ([.unusedImport, .unusedDomain], unusedProblems (m.link rules).model)]

theorem link_problems_parts (rules : NamingRules) (m : Model) :
    (m.link rules).problems = (reportParts rules m).flatMap (·.2) := by
  rw [link_problems, Validation.problems_eq]
  simp only [reportParts, List.flatMap_cons, List.flatMap_nil, List.append_assoc, List.append_nil]

theorem kinds_reportParts (rules : NamingRules) (h : m.AsLoaded) :
    ∀ x ∈ reportParts rules m, OfKinds x.1 x.2 := by
  simp only [reportParts, List.forall_mem_cons]
  exact ⟨kinds_useProblems _, kinds_circularUses _, .flatMap fun _ _ => .flatMap fun a _ =>
    kinds_aliasProblems a, kinds_referenceProblems _, kinds_inheritanceCycles _,
      kinds_expanded rules h, kinds_associationProblems _,
    kinds_propertyReferenceProblems _, kinds_asDomainProblems _, kinds_duplicates _,
    kinds_partProblems _ rules, kinds_unusedProblems _, nofun⟩

/-- **Of a kind, linking reports what those parts do that may be of it.** -/
theorem filter_link_kind (rules : NamingRules) (h : m.AsLoaded) (k : DiagnosticKind) :
    (m.link rules).problems.filter (·.kind == k)
      = ((reportParts rules m).filter (·.1.contains k)).flatMap fun x =>
        x.2.filter (·.kind == k) := by
  have hkinds := kinds_reportParts rules h
  rw [link_problems_parts, List.filter_flatMap]
  generalize reportParts rules m = parts at hkinds
  induction parts with
  | nil => rfl
  | cons x rest ih =>
    have hrest := ih fun y hy => hkinds y (List.mem_cons_of_mem _ hy)
    rw [List.flatMap_cons, hrest, List.filter_cons]
    split
    · rfl
    next hk =>
      rw [(hkinds x List.mem_cons_self).filter_eq_nil (by simpa using hk)]
      rfl

theorem mem_link_kind (rules : NamingRules) (h : m.AsLoaded) (d : Diagnostic) :
    d ∈ (m.link rules).problems
    ↔ ∃ x ∈ (reportParts rules m).filter (·.1.contains d.kind), d ∈ x.2 := by
  have hkind : ∀ ds : List Diagnostic, d ∈ ds ↔ d ∈ ds.filter (·.kind == d.kind) := by
    intro ds
    rw [List.mem_filter, and_iff_left (beq_self_eq_true _)]
  rw [hkind, filter_link_kind rules h, List.mem_flatMap]
  exact exists_congr fun x => and_congr_right fun _ => (hkind x.2).symm

/-- **Linking reports what is declared twice as often as the check of it does.** -/
theorem count_link (rules : NamingRules) (h : m.AsLoaded) {k : DiagnosticKind}
    (hk : k ∈ repetitionKinds) :
    (m.link rules).problems.countP (·.kind == k)
      = (duplicates (m.link rules).model).countP (·.kind == k) := by
  have hpart : (reportParts rules m).filter (·.1.contains k)
      = [(repetitionKinds, duplicates (m.link rules).model)] := by
    simp only [repetitionKinds, List.mem_cons, List.not_mem_nil, or_false] at hk
    rcases hk with rfl | rfl | rfl | rfl | rfl
    all_goals rfl
  rw [List.countP_eq_length_filter, List.countP_eq_length_filter, filter_link_kind rules h, hpart,
    List.flatMap_singleton]

/-- **Linking reports parameters out of order as the check of each endpoint does.** -/
theorem filter_link_parameterOrder (rules : NamingRules) (h : m.AsLoaded) :
    (m.link rules).problems.filter (·.kind == .invalidParameterOrder)
      = (m.link rules).model.endpoints.flatMap (parameterProblems (m.link rules).model rules) := by
  have hpart : (reportParts rules m).filter (·.1.contains .invalidParameterOrder)
      = [(partKinds, partProblems (m.link rules).model rules)] := rfl
  rw [filter_link_kind rules h, hpart, List.flatMap_singleton, filter_parameterOrder]

/-- **Linking reports circles as the searches for them do.** -/
theorem filter_link_circles (rules : NamingRules) (h : m.AsLoaded) :
    (m.link rules).problems.filter (·.kind == .circularDependency) = circularUses (resolveUses m) ∧
      (m.link rules).problems.filter (·.kind == .circularInheritance)
        = inheritanceCycles (namedModel m) := by
  have huses : (reportParts rules m).filter (·.1.contains .circularDependency)
      = [([.circularDependency], circularUses (resolveUses m))] := rfl
  have hparents : (reportParts rules m).filter (·.1.contains .circularInheritance)
      = [([.circularInheritance], inheritanceCycles (namedModel m))] := rfl
  constructor
  · rw [filter_link_kind rules h, huses, List.flatMap_singleton,
      (kinds_circularUses _).filter_eq_self]
  · rw [filter_link_kind rules h, hparents, List.flatMap_singleton,
      (kinds_inheritanceCycles _).filter_eq_self]

/-- **Linking reports unused imports as it notes useless uses.** -/
theorem mem_link_unused (rules : NamingRules) (h : m.AsLoaded) {d : Diagnostic}
    (hk : d.kind = .unusedImport) :
    d ∈ (m.link rules).problems ↔ d ∈ unusedProblems (m.link rules).model := by
  have hpart : (reportParts rules m).filter (·.1.contains .unusedImport)
      = [([.unusedImport, .unusedDomain], unusedProblems (m.link rules).model)] := rfl
  simp only [mem_link_kind rules h, hk, hpart, List.mem_singleton, exists_eq_left]

end Linking

end EntityModel
