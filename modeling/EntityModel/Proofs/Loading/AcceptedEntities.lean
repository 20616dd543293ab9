import EntityModel.Loading.Entity
import EntityModel.Proofs.Loading.AcceptedProperties
import Mathlib.Data.List.Induction

/-!
# Which entities the loader accepts

The values of a class are checked when all of it is read: against the properties read last, each
value by the fields that say something.  A draft of a class therefore carries what the checks will
ask of it.
-/

namespace EntityModel.Loading

open Source Grammar

/-! ### Lists of properties -/

theorem filterMap_eq_of_forall₂ {α β γ : Type} {f : α → Option γ} {g : β → Option γ} {as : List α}
    {bs : List β} (h : List.Forall₂ (fun a b => g b = f a) as bs) :
    bs.filterMap g = as.filterMap f := by
  induction h with
  | nil => rfl
  | cons hab _ ih => rw [List.filterMap_cons, List.filterMap_cons, hab, ih]

theorem requiredFields_eq (drafts : List PropertyDraft) :
    requiredFields drafts = drafts.filterMap PropertyDraft.requiredName? := by
  unfold requiredFields
  rw [List.filterMap_filter]
  rfl

theorem reads_propertyList :
    Reads propertyList (listOf Grammar.property) fun node drafts =>
      requiredFields drafts = (itemsOf node).filterMap Grammar.requiredName? :=
  (Reads.sequence reads_property).mono fun _ _ h => by
    rw [requiredFields_eq, filterMap_eq_of_forall₂ h]

/-! ### Decorators -/

theorem reads_decoratorImplementation :
    Reads decoratorImplementation (block decoratorImplementationKeys []) fun _ _ => True := by
  refine reads_block _ fun i key l => ?_
  dsimp only
  split
  · exact reads_field rfl .optionalString fun _ _ _ => trivial
  · exact reads_field rfl .stringList fun _ _ _ => trivial
  · exact reads_field rfl .stringList fun _ _ _ => trivial
  · exact reads_unknownKey (by simp_all [decoratorImplementationKeys, List.lookup_eq_none_iff])

theorem gathers_decorator :
    Gathers DecoratorDraft.set (known decoratorKeys) fun entries d =>
      d.name.map Located.value = text? "name" entries := by
  refine .ofKeys fun before ⟨key, start⟩ d l hI => ?_
  dsimp only [DecoratorDraft.set]
  split
  · exact reads_field rfl .optionalScalar fun node a ha => by simp [ha]
  · exact reads_field rfl .string fun node a ha => by simp [hI]
  · exact reads_field rfl reads_propertyList fun node a ha => by simp [hI]
  · have hkey : decoratorKeys.lookup key
        = if decoratorLanguages.contains key then some (block decoratorImplementationKeys [])
          else none :=
      lookup_language _ _ (by simp_all [List.lookup_eq_none_iff])
    split
    · rename_i hlanguage
      rw [if_pos hlanguage] at hkey
      exact reads_field hkey reads_decoratorImplementation fun node a ha => by simp_all
    · rename_i hlanguage
      rw [if_neg hlanguage] at hkey
      exact reads_unknownKey hkey

theorem reads_decorator (ctx : Context) (id : DecoratorId) (location : Location) :
    Reads (decorator ctx id location) Grammar.decorator fun node d =>
      d.location = location ∧ d.ns = ctx.ns ∧
          text? "name" (entriesOf node) = some d.name.value := by
  intro o node
  rw [Grammar.decorator, block_eq, List.all_cons, List.all_nil, Bool.and_true]
  refine Takes.andThen (gathers_decorator.mapping rfl rfl o node) fun d _ hname => ?_
  exact (takes_required hname _ _).map fun _ h => ⟨rfl, rfl, text?_of_required hname h⟩

/-! ### Decorators of a class -/

theorem gathers_usage :
    Gathers (fun (usage : Option (Located String) × List String) key => do
        match key.value with
        | "decorator" => return (← Read.optionalScalar, usage.2)
        | "parameters" => return (usage.1, ← Read.stringList)
        | _ => Read.unknownKey .decoratorUsage key)
      (known usageKeys) fun entries usage => usage.1.map Located.value
        = text? "decorator" entries := by
  refine .ofKeys fun before ⟨key, start⟩ usage l hI => ?_
  dsimp only
  split
  · exact reads_field rfl .optionalScalar fun node a ha => by simp [ha]
  · exact reads_field rfl .stringList fun node a ha => by simp [hI]
  · exact reads_unknownKey (by simp_all [usageKeys, List.lookup_eq_none_iff])

theorem reads_decoratorUsage : Reads decoratorUsage Grammar.decoratorUsage fun _ _ => True := by
  intro o node
  match node with
  | .scalar s => exact .isNext ((Reads.scalar o (.scalar s)).map fun _ _ => trivial)
  | .sequence start stop items =>
    exact .isNext (Takes.bind_failed (Reads.scalar o (.sequence start stop items)))
  | .mapping start stop entries =>
    refine .isNext (Takes.location fun l => ?_)
    have hshape : Grammar.decoratorUsage (.mapping start stop entries)
        = (mappingOf (known usageKeys) (.mapping start stop entries)
          && present "decorator" entries) := by
      simp [Grammar.decoratorUsage, block_eq, isScalar, literal?, entriesOf]
    rw [hshape]
    refine Takes.andThen (gathers_usage.mapping rfl rfl o (.mapping start stop entries))
      fun usage _ hname => ?_
    exact (takes_required hname _ _).map fun _ _ => trivial

/-! ### Values -/

def setsField (fields : List ValueField) (name : String) : Bool :=
  fields.any (·.property.text == name)

theorem isSome_getByName? (v : ReferenceValue) (name : String) :
    (v.getByName? name).isSome = setsField v.fields name := by
  rw [ReferenceValue.getByName?, Option.isSome_map, Bool.eq_iff_iff, List.find?_isSome, setsField,
    List.any_eq_true]

theorem gathers_valueFields :
    Gathers (fun fields field => do
        match ← Read.optionalScalar with
        | some value => return fields ++ [⟨.ofName field, value⟩]
        | none => return fields)
      (fun entries => entries.all fun e => isScalar e.2) fun entries fields =>
        ∀ name, setsField fields name = entries.any fun e =>
            e.1.text == name && (stated? e.2).isSome := by
  refine .ofAny fun before key fields l hI o node => ?_
  rw [← Bool.and_true (isScalar node)]
  refine Takes.andThen (Reads.optionalScalar o node) fun value _ hvalue => ?_
  cases value with
  | none =>
    refine .pure fun name => ?_
    simp [hI name, ← hvalue]
  | some value =>
    refine .pure fun name => ?_
    rw [setsField, List.any_append, ← setsField, hI name]
    simp [Reference.text, Reference.ofName, ← hvalue]

theorem reads_valueFields :
    Reads valueFields (mapOf isScalar) fun node fields => setsField fields = sets node :=
  (gathers_valueFields.mapping rfl fun _ => rfl).mono fun _ _ h => funext h

theorem gathers_referenceValues :
    Gathers (fun values name => do return values ++ [⟨name, ← valueFields⟩])
      (fun entries => entries.all fun e => mapOf isScalar e.2)
        fun entries (values : List ReferenceValue) =>
        values.map (setsField ·.fields) = (entries.map Prod.snd).map sets := by
  refine .ofAny fun before key values l hI => reads_valueFields.map fun node fields hfields => ?_
  rw [List.map_append, List.map_append, List.map_append, hI]
  simp [hfields]

theorem reads_referenceValues :
    Reads referenceValues (mapOf (mapOf isScalar)) fun node values =>
      values.map (setsField ·.fields) = ((entriesOf node).map Prod.snd).map sets :=
  gathers_referenceValues.mapping rfl rfl

/-! ### Classes -/

theorem reads_optionalReference {α : Type} :
    Reads (optionalReference (α := α)) isScalar fun _ _ => True :=
  Reads.optionalScalar.map fun _ _ _ => trivial

/-- What checking a class looks at. -/
structure ClassDraft.Holds (entries : List Entry) (d : ClassDraft) : Prop where
  name : d.name.map Located.value = text? "name" entries
  properties : d.properties.isSome = entries.any (·.1.text == "properties")
  required : requiredFields (d.properties.getD []) = requiredNames entries
  values : d.values.map (setsField ·.fields) = (valuesOf entries).map sets

theorem ClassDraft.Holds.pass {before : List Entry} {d d' : ClassDraft} (h : d.Holds before)
    {key : Scalar}
    {node : Node} (hkey : key.text ∉ ["name", "properties", "values"]) (hname : d'.name = d.name)
    (hproperties : d'.properties = d.properties) (hvalues : d'.values = d.values) :
    d'.Holds (before ++ [(key, node)]) := by
  simp only [List.mem_cons, List.not_mem_nil, or_false, not_or] at hkey
  obtain ⟨hnot, hnotProperties, hnotValues⟩ := hkey
  constructor
  · rw [hname, text?_concat, if_neg hnot]
    exact h.name
  · rw [hproperties, h.properties]
    simp [hnotProperties]
  · rw [hproperties, requiredNames, value?_concat, if_neg hnotProperties]
    exact h.required
  · rw [hvalues, valuesOf, value?_concat, if_neg hnotValues]
    exact h.values

theorem reads_classKey {before : List Entry} {d : ClassDraft} (hd : d.Holds before) (key : Scalar)
    (l : Location) (h : key.text ≠ "values" ∨ d.properties.isSome = true) :
    Reads (d.set ⟨key.text, l⟩) (fits classKeys key.text) fun node d =>
      d.Holds (before ++ [(key, node)]) := by
  obtain ⟨key, start⟩ := key
  dsimp only [ClassDraft.set] at h ⊢
  split
  · refine reads_field rfl .optionalScalar fun node name hname => ⟨?_, ?_, ?_, ?_⟩
    · simp [hname]
    · simp [hd.properties]
    · simp [requiredNames, value?_concat, hd.required]
    · simp [valuesOf, value?_concat, hd.values]
  · exact reads_field rfl .optionalScalar fun _ _ _ => hd.pass (by simp) rfl rfl rfl
  · exact reads_field rfl .optionalString fun _ _ _ => hd.pass (by simp) rfl rfl rfl
  · exact reads_field rfl .optionalString fun _ _ _ => hd.pass (by simp) rfl rfl rfl
  · exact reads_field rfl .optionalString fun _ _ _ => hd.pass (by simp) rfl rfl rfl
  · exact reads_field rfl .string fun _ _ _ => hd.pass (by simp) rfl rfl rfl
  · exact reads_field rfl reads_optionalReference fun _ _ _ => hd.pass (by simp) rfl rfl rfl
  · exact reads_field rfl .bool fun _ _ _ => hd.pass (by simp) rfl rfl rfl
  · exact reads_field rfl .bool fun _ _ _ => hd.pass (by simp) rfl rfl rfl
  · exact reads_field rfl (.sequence reads_decoratorUsage) fun _ _ _ =>
      hd.pass (by simp) rfl rfl rfl
  · refine reads_field rfl reads_propertyList fun node drafts hdrafts => ⟨?_, ?_, ?_, ?_⟩
    · simp [hd.name]
    · simp
    · simp [requiredNames, value?_concat, hdrafts]
    · simp [valuesOf, value?_concat, hd.values]
  · have hgroup : Reads (do return (references (← Read.scalarList) : List PropertyReference))
        scalars fun _ _ => True :=
      Reads.scalarList.map fun _ _ _ => trivial
    exact reads_field rfl (.sequence hgroup) fun _ _ _ => hd.pass (by simp) rfl rfl rfl
  · have hbehind : d.properties.isNone = false := by
      rw [Option.isNone_eq_false_iff]
      exact h.resolve_left fun hvalues => hvalues rfl
    rw [hbehind]
    refine reads_field rfl reads_referenceValues fun node values hvalues => ⟨?_, ?_, ?_, ?_⟩
    · simp [hd.name]
    · simp [hd.properties]
    · simp [requiredNames, value?_concat, hd.required]
    · simp [valuesOf, value?_concat, hvalues]
  · exact reads_field rfl reads_optionalReference fun _ _ _ => hd.pass (by simp) rfl rfl rfl
  · exact reads_field rfl reads_optionalReference fun _ _ _ => hd.pass (by simp) rfl rfl rfl
  · exact reads_field rfl reads_optionalReference fun _ _ _ => hd.pass (by simp) rfl rfl rfl
  · exact reads_unknownKey (by simp_all [classKeys, List.lookup_eq_none_iff])

theorem reads_early_values {d : ClassDraft} (h : d.properties = none) (l : Location)
    {Q : Node → ClassDraft → Prop} : Reads (d.set ⟨"values", l⟩) (fun _ => false) Q := by
  intro o node
  show Takes (if d.properties.isNone = true then _ else _ : Read ClassDraft) _ _ _
  rw [h]
  exact Takes.bind_failed (Q := fun _ => True) (.fail _ _)

theorem valuesBehind_concat (before : List Entry) (key : Scalar) (node : Node) :
    valuesBehind (before ++ [(key, node)])
      = (valuesBehind before
        && (key.text != "values" || before.any (·.1.text == "properties"))) := by
  induction before with
  | nil =>
    by_cases hkey : key.text = "properties" <;> simp [valuesBehind, hkey]
  | cons e before ih =>
    by_cases he : e.1.text = "properties"
    · simp [valuesBehind, he]
    · have hother : (e.1.text == "properties") = false := beq_eq_false_iff_ne.mpr he
      simp only [valuesBehind, List.cons_append] at ih ⊢
      rw [List.takeWhile_cons_of_pos (by simpa using he),
        List.takeWhile_cons_of_pos (by simpa using he), List.all_cons, List.all_cons, ih,
        Bool.and_assoc, List.any_cons, hother, Bool.false_or]

theorem valuesBehind_of_append (before after : List Entry)
    (h : valuesBehind (before ++ after) = true) :
    valuesBehind before = true := by
  induction after using List.reverseRecOn with
  | nil => rwa [List.append_nil] at h
  | append_singleton after e ih =>
    rw [← List.append_assoc, valuesBehind_concat, Bool.and_eq_true] at h
    exact ih h.1

theorem gathers_class :
    Gathers ClassDraft.set (fun entries => known classKeys entries && valuesBehind entries)
      ClassDraft.Holds where
  closed before after h := by
    rw [Bool.and_eq_true, known, List.all_append, Bool.and_eq_true] at h
    rw [Bool.and_eq_true]
    exact ⟨h.1.1, valuesBehind_of_append before after h.2⟩
  step before key d l hok hd := by
    rw [Bool.and_eq_true] at hok
    simp only [Gathers.known_concat, valuesBehind_concat, hok.1, hok.2, Bool.true_and,
      ← hd.properties]
    by_cases hvalues : key.text = "values" ∧ d.properties = none
    · obtain ⟨hkey, hnone⟩ := hvalues
      have hfalse : (key.text != "values" || d.properties.isSome) = false := by simp [hkey, hnone]
      simp only [hfalse, Bool.and_false]
      rw [hkey]
      exact reads_early_values hnone l
    · have htrue : (key.text != "values" || d.properties.isSome) = true := by
        rw [Bool.or_eq_true, bne_iff_ne, Option.isSome_iff_ne_none]
        exact not_and_or.mp hvalues
      simp only [htrue, Bool.and_true]
      rw [Bool.or_eq_true, bne_iff_ne] at htrue
      exact reads_classKey hd key l htrue

/-! ### The values of a class -/

theorem takes_forM {α : Type} {f : α → Read Unit} {ok : α → Bool} (xs : List α)
    (h : ∀ x, Takes (f x) [] (ok x) fun _ => True) :
    Takes (xs.forM f) [] (xs.all ok) fun _ => True := by
  induction xs with
  | nil => exact .pure trivial
  | cons x xs ih => exact (h x).andThen fun _ _ _ => ih

theorem takes_checkValues (cls : String) (properties : List PropertyDraft)
    (values : List ReferenceValue) :
    Takes (checkValues cls properties values) []
      (values.all fun value => (requiredFields properties).all (setsField value.fields)) fun _ =>
        True := by
  refine takes_forM values fun value => takes_forM _ fun field => ?_
  rw [← isSome_getByName?]
  cases value.getByName? field with
  | none => exact .fail _ _
  | some text => exact .pure trivial

theorem valuesComplete_eq {entries : List Entry} {d : ClassDraft} (h : d.Holds entries) :
    (d.values.all fun value => (requiredFields (d.properties.getD [])).all (setsField value.fields))
      = valuesComplete entries := by
  have hall : ∀ required : List String,
      (d.values.all fun value => required.all (setsField value.fields))
        = (d.values.map (setsField ·.fields)).all fun sets => required.all sets :=
        fun required => by
    rw [List.all_map]
    rfl
  rw [hall, h.required, h.values, List.all_map]
  rfl

theorem reads_cls (ctx : Context) (id : ClassId) (location : Location) :
    Reads (cls ctx id location) Grammar.cls fun node c =>
      c.location = location ∧ c.ns = ctx.ns ∧
          text? "name" (entriesOf node) = some c.name.value := by
  intro o node
  have hshape : Grammar.cls node
      = (mappingOf (fun entries => known classKeys entries && valuesBehind entries) node &&
          (present "name" (entriesOf node) && valuesComplete (entriesOf node))) := by
    cases node with
    | mapping start stop entries => simp only [Grammar.cls, mappingOf, entriesOf, Bool.and_assoc]
    | scalar s => rfl
    | sequence start stop items => rfl
  rw [hshape]
  refine Takes.andThen (gathers_class.mapping rfl ⟨rfl, rfl, rfl, rfl⟩ o node) fun d _ hd => ?_
  refine (takes_required hd.name _ _).andThen fun name _ hname => ?_
  rw [← valuesComplete_eq hd]
  exact (takes_checkValues name.value _ d.values).map fun _ _ =>
    ⟨rfl, rfl, text?_of_required hd.name hname⟩

/-! ### Endpoints -/

/-- What checking an endpoint looks at. -/
structure EndpointDraft.Holds (entries : List Entry) (d : EndpointDraft) : Prop where
  name : d.name.map Located.value = text? "name" entries
  method : d.method.isSome = present "method" entries

theorem reads_method (d : EndpointDraft) :
    Reads (do
      let s ← Read.scalar
      match HttpMethod.ofName? s.value with
      | some method => return { d with method := some method }
      | none => Read.fail (.unknownMethod s.value) s.location) isMethod
      fun node d' => d'.name = d.name ∧ d'.method.isSome = (stated? node).isSome := by
  refine (Reads.ofScalar (P := fun text d' => d'.name = d.name ∧ d'.method.isSome = true
    ∧ (HttpMethod.ofName? text).isSome = true) fun text l => ?_).mono ?_
  · cases h : HttpMethod.ofName? text with
    | some method => exact .pure ⟨rfl, rfl, rfl⟩
    | none => exact .fail _ _
  · rintro node d' ⟨text, htext, hname, hmethod, hknown⟩
    refine ⟨hname, ?_⟩
    have hstated : ["~", "null", ""].contains text = false := by
      rw [← Bool.not_eq_true, List.contains_iff_mem]
      intro habsent
      have hnone : ∀ absent ∈ ["~", "null", ""], HttpMethod.ofName? absent = none := by decide
      rw [hnone text habsent] at hknown
      exact absurd hknown Bool.false_ne_true
    rw [hmethod, stated?, htext, Option.filter_some, hstated]
    rfl

theorem gathers_endpoint : Gathers EndpointDraft.set (known endpointKeys) EndpointDraft.Holds := by
  refine .ofKeys fun before key d l h => ?_
  obtain ⟨key, start⟩ := key
  obtain ⟨hname, hmethod⟩ := h
  dsimp only [EndpointDraft.set]
  split
  · exact reads_field rfl .optionalScalar fun node a ha => by constructor <;> simp [present, *]
  · refine reads_key rfl ((reads_method d).mono fun node d' h' => ?_)
    obtain ⟨hname', hmethod'⟩ := h'
    constructor <;> simp [present, *]
  · exact reads_field rfl .string fun node a ha => by constructor <;> simp [present, *]
  · exact reads_field rfl .string fun node a ha => by constructor <;> simp [present, *]
  · exact reads_field rfl reads_propertyList fun node a ha => by constructor <;> simp [present, *]
  · exact reads_field rfl reads_property fun node a ha => by constructor <;> simp [present, *]
  · exact reads_field rfl .bool fun node a ha => by constructor <;> simp [present, *]
  · exact reads_unknownKey (by simp_all [endpointKeys, List.lookup_eq_none_iff])

theorem reads_endpoint (ctx : Context) (id : EndpointId) (location : Location) :
    Reads (endpoint ctx id location) Grammar.endpoint fun node e =>
      e.location = location ∧ e.ns = ctx.ns ∧
          text? "name" (entriesOf node) = some e.name.value := by
  intro o node
  rw [Grammar.endpoint, block_eq, List.all_cons, List.all_cons, List.all_nil, Bool.and_true]
  refine Takes.andThen (gathers_endpoint.mapping rfl ⟨rfl, rfl⟩ o node) fun d _ ⟨hname, hmethod⟩ =>
    ?_
  refine (takes_required hname _ _).andThen fun name _ h => ?_
  rw [← hmethod]
  exact (Takes.require _ _).map fun _ _ => ⟨rfl, rfl, text?_of_required hname h⟩

end EntityModel.Loading
