import EntityModel.Proofs.Mirroring.Validation
import EntityModel.Proofs.Store.Derived
import EntityModel.Proofs.Validation.Repetitions

/-!
# What a link without errors guarantees

Generators take it that things have one name each, that a class can be looked up by its key, and
that it extends one class at most.  The checks of a linked model look for what breaks this, each
skipping what it cannot make sense of; once linking reports no error there is nothing to skip, and
the model is `Integral` (`Store.Reachable.integrity`).  In a model with errors too, whatever is
declared twice is reported once for each repetition.
-/

namespace EntityModel

namespace Model

/-- What a class extends in a language: its parent, and the bases that its decorators give it. -/
def basesOf (m : Model) (c : Class) (language : String) : List String :=
  c.parent.toList.map Reference.text
    ++ (c.decorators.filterMap fun usage => usage.decorator.target.bind m.decorator?).filterMap
      fun d =>
      (d.implementations.lookup language).bind (·.base)

/-- The model holds together: declarations have keys of their own, the properties of a class names
of their own, classes one primary key property unless more are allowed, associations a key to refer
to, and classes one base in each language. -/
structure Integral (m : Model) (rules : NamingRules) : Prop where
  classes : m.classKeys.Nodup
  decorators : m.decoratorKeys.Nodup
  endpoints : m.endpointKeys.Nodup
  domains : m.domainNames.Nodup
  trigrams : m.trigrams.Nodup
  names : ∀ c ∈ m.classes,
    ((m.classProperties c.id).filterMap fun p => m.propertyName? rules p.id).Nodup
  found : ∀ c ∈ m.classes, ∀ p ∈ m.classProperties c.id, ∀ name,
    m.propertyName? rules p.id = some name →
    m.findProperty rules c.id name = some p.id
  keys : rules.allowCompositePrimaryKey = false → ∀ c ∈ m.classes, (m.primaryKey c.id).length ≤ 1
  associations : ∀ p ∈ m.properties, ∀ a, p.kind = .association a → a.property = none →
    ∃ c ∈ m.classes, a.association.target = some c.id ∧ ∃ key, m.primaryKey c.id = [key]
  bases : ∀ c ∈ m.classes, ∀ language ∈ ["csharp", "java", "ts", "php"],
    (m.basesOf c language).length ≤ 1

end Model

namespace Validation

variable {m : Model} {rules : NamingRules} {c : Class}

/-! ### What each check leaves true -/

theorem keys_of_no_duplicates (h : duplicates m = []) :
    m.classKeys.Nodup ∧ m.decoratorKeys.Nodup ∧ m.endpointKeys.Nodup ∧ m.domainNames.Nodup ∧
      m.trigrams.Nodup := by
  simp only [duplicates, duplicateClasses, duplicateDecorators, duplicateDomains,
    duplicateEndpoints, duplicateTrigrams, List.append_eq_nil_iff, List.map_eq_nil_iff,
    repeated_eq_nil_iff] at h
  obtain ⟨⟨⟨⟨hclasses, hdecorators⟩, hdomains⟩, hendpoints⟩, htrigrams⟩ := h
  exact ⟨hclasses, hdecorators, hendpoints, hdomains, by rw [trigrams_eq]; exact htrigrams⟩

theorem names_of_no_duplicates (h : duplicateProperties m rules c = []) :
    ((m.classProperties c.id).filterMap fun p => m.propertyName? rules p.id).Nodup := by
  rw [duplicateProperties, List.map_eq_nil_iff, repeated_eq_nil_iff, namedProperties,
    List.map_filterMap] at h
  have hsnd : (fun p : Property => Option.map Prod.snd ((m.propertyName? rules p.id).map (p, ·)))
      = fun p => m.propertyName? rules p.id := by
    funext p
    cases m.propertyName? rules p.id <;> rfl
  rwa [hsnd] at h

/-- Looking for a value that nothing else in the list has finds what has it. -/
theorem find?_of_nodup_filterMap {α β : Type} [BEq β] [LawfulBEq β] {f : α → Option β} {as : List α}
    (h : (as.filterMap f).Nodup) {a : α} (ha : a ∈ as) {b : β} (hb : f a = some b) :
    as.find? (fun x => f x == some b) = some a := by
  induction as with
  | nil => exact absurd ha List.not_mem_nil
  | cons x rest ih =>
    rw [List.find?_cons]
    rcases List.mem_cons.mp ha with rfl | ha
    · simp [hb]
    · cases hx : f x with
      | none =>
        rw [List.filterMap_cons_none hx] at h
        simpa using ih h ha
      | some b' =>
        rw [List.filterMap_cons_some hx, List.nodup_cons] at h
        have hne : b' ≠ b := by
          rintro rfl
          exact h.1 (List.mem_filterMap.mpr ⟨a, ha, hb⟩)
        simpa [beq_eq_false_iff_ne.mpr hne] using ih h.2 ha

theorem findProperty_of_names
    (h : ((m.classProperties c.id).filterMap fun p => m.propertyName? rules p.id).Nodup)
    {p : Property}
    (hp : p ∈ m.classProperties c.id) {name : String}
    (hname : m.propertyName? rules p.id = some name) :
    m.findProperty rules c.id name = some p.id := by
  unfold Model.findProperty
  rw [find?_of_nodup_filterMap h hp hname]
  rfl

theorem key_of_no_composite (h : compositeKey m rules c = [])
    (hallow : rules.allowCompositePrimaryKey = false) :
    (m.primaryKey c.id).length ≤ 1 := by
  rw [compositeKey, hallow] at h
  match hkey : m.primaryKey c.id with
  | [] => exact Nat.zero_le 1
  | [_] => exact Nat.le_refl 1
  | _ :: _ :: _ =>
    rw [hkey] at h
    simp at h

theorem length_basesOf (m : Model) (c : Class) (language : String) :
    (m.basesOf c language).length = baseCount m c language := by
  have hparent : (c.parent.toList.map Reference.text).length
      = if c.parent.isSome then 1 else 0 := by
    cases c.parent <;> rfl
  rw [Model.basesOf, List.length_append, hparent, baseCount, Nat.add_comm,
    List.length_filterMap_eq_countP]
  refine congrArg (· + _) (List.countP_congr fun d _ => ?_)
  cases d.implementations.lookup language <;> simp

theorem bases_of_no_conflict (h : severalBases m c = []) {language : String}
    (hl : language ∈ decoratorLanguages) : (m.basesOf c language).length ≤ 1 := by
  rw [length_basesOf]
  unfold severalBases at h
  cases hfind : decoratorLanguages.find? fun language => baseCount m c language > 1 with
  | some found => simp [hfind] at h
  | none => simpa using List.find?_eq_none.mp hfind language hl

end Validation

namespace Linking

open Validation

variable {rules : NamingRules} {m : Model}

/-- **A link without errors leaves a model that holds together.** -/
theorem integral_of_no_errors (h : m.AsLoaded)
    (hnone : ∀ d ∈ (m.link rules).problems, d.isError = false) :
    (m.link rules).model.Integral rules := by
  obtain ⟨-, -, -, -, hvalid⟩ := nothing_reported hnone
  have hwhole := whole_of_no_errors h hnone
  simp only [problems, List.append_eq_nil_iff, List.flatMap_eq_nil_iff, List.filterMap_eq_nil_iff,
    classProblems] at hvalid
  obtain ⟨⟨⟨hduplicates, hclasses⟩, hassociations⟩, -⟩ := hvalid
  obtain ⟨hclassKeys, hdecorators, hendpoints, hdomains, htrigrams⟩ :=
    keys_of_no_duplicates hduplicates
  refine ⟨hclassKeys, hdecorators, hendpoints, hdomains, htrigrams, fun c hc => ?_,
    fun c hc p hp name => ?_, fun hallow c hc => ?_, fun p hp a hk hproperty => ?_,
    fun c hc language hl => ?_⟩
  · exact names_of_no_duplicates (hclasses c hc).1.1.2
  · exact findProperty_of_names (names_of_no_duplicates (hclasses c hc).1.1.2) hp
  · exact key_of_no_composite (hclasses c hc).1.1.1 hallow
  · obtain ⟨c, hc, htarget⟩ := hwhole.associated p hp a hk
    refine ⟨c, hc, htarget, List.length_eq_one_iff.mp ?_⟩
    simpa [associationProblem, Property.association?, hk, htarget, hproperty]
      using hassociations p hp
  · exact bases_of_no_conflict (hclasses c hc).1.2 hl

end Linking

namespace Store

open Linking

variable {s : Store}

/-- Errors are kept, however many: those found in linking the drafts are those of the store, but for
files that did not load. -/
theorem count_diagnostics_link (s : Store) {k : DiagnosticKind}
    (hk : k ∈ Validation.repetitionKinds) :
    s.link.1.diagnostics.all.countP (·.kind == k)
      = (s.draftModel.link s.naming).problems.countP (·.kind == k) := by
  have herror : k.severity = .error :=
    (by decide : ∀ k ∈ Validation.repetitionKinds, k.severity = .error) k hk
  have hfailures : OfKinds [.invalidFile]
      (s.failures.map fun failure => failureProblem failure.1 failure.2) :=
    .map fun _ _ => rfl
  have hother : k ∉ [DiagnosticKind.invalidFile] :=
    (by decide : ∀ k ∈ Validation.repetitionKinds, k ∉ [DiagnosticKind.invalidFile]) k hk
  rw [link_eq]
  show (Diagnostics.byFile s.settings.suppressed s.linked.problems).all.countP _ = _
  rw [Diagnostics.count_byFile _ _ herror]
  show (_ ++ _ : List Diagnostic).countP _ = _
  rw [List.countP_append, hfailures.count_eq_zero hother, Nat.zero_add]
  rfl

/-- **A link without errors leaves a model that holds together; and with or without errors, whatever
the files declare twice is reported once for each repetition.** -/
theorem Reachable.integrity (h : s.Reachable) :
    (s.link.2.errors = 0 → s.link.1.model.Integral s.naming) ∧
      s.draftModel.Repetitions fun k => s.link.1.diagnostics.all.countP (·.kind == k) := by
  have hloaded := h.drafted.asLoaded
  refine ⟨fun hnone => ?_, ?_⟩
  · rw [link_model]
    exact integral_of_no_errors hloaded (no_errors_of_link hnone)
  · exact (repetitions_link s.naming hloaded).congr fun k hk => count_diagnostics_link s hk

/-- A store with a class that is its own key holds together. -/
theorem integrity_of_ownKey :
    ownKey.link.2.errors = 0 ∧ ownKey.link.1.model.Integral ownKey.naming ∧
      ownKey.draftModel.Repetitions fun k => ownKey.link.1.diagnostics.all.countP (·.kind == k) :=
  ⟨ownKey_linked.1, (Reachable.integrity ownKey_reachable).1 ownKey_linked.1,
    (Reachable.integrity ownKey_reachable).2⟩

end Store

end EntityModel
