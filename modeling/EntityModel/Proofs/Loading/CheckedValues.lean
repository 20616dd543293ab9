import EntityModel.Proofs.Loading.Numbering

/-!
# Values that pass loading

A class is read only if each of its values sets the required properties that the class itself
declares; keys, and what decorators bring, are not looked at yet.  So it is with every class of a
loaded file (`ModelFile.setsRequired_of_load`).
-/

namespace EntityModel

/-- Every value of the class has fields for the required properties of the class itself, keys
apart. -/
def Class.SetsRequired (c : Class) : Prop :=
  ∀ v ∈ c.values, ∀ p ∈ c.properties, ∀ r, p.kind = .regular r → r.required = true →
    r.primaryKey = false →
    (v.getByName? r.name.value).isSome = true

namespace Source.Returns

/-- What lets every element of a list pass has checked them all. -/
theorem forM {α : Type} {P : α → Prop} {x : α → Read Unit} {as : List α}
    (h : ∀ a ∈ as, Returns (fun _ => P a) (x a)) :
    Returns (fun _ => ∀ a ∈ as, P a) (as.forM x) := by
  induction as with
  | nil => exact .pure (by simp)
  | cons a rest ih =>
    refine (h a List.mem_cons_self).bind fun _ ha => ?_
    have hrest := ih fun b hb => h b (List.mem_cons_of_mem _ hb)
    exact fun r u r' hr => List.forall_mem_cons.mpr ⟨ha, hrest r u r' hr⟩

end Source.Returns

namespace Loading

open Source

theorem returns_checkValues (name : String) (properties : List PropertyDraft)
    (values : List ReferenceValue) :
    Returns (fun _ => ∀ v ∈ values, ∀ field ∈ requiredFields properties,
      (v.getByName? field).isSome = true) (checkValues name properties values) := by
  refine .forM fun v _ => .forM fun field _ => ?_
  cases hfield : v.getByName? field with
  | none => exact .fail _ _
  | some value => exact .pure rfl

theorem mem_requiredFields {properties : List PropertyDraft} {d : PropertyDraft}
    (hd : d ∈ properties)
    {r : RegularProperty} (hk : d.kind = .regular r) (hrequired : r.required = true)
    (hkey : r.primaryKey = false) : r.name.value ∈ requiredFields properties := by
  refine List.mem_filterMap.mpr ⟨d, List.mem_filter.mpr ⟨hd, ?_⟩, ?_⟩
  · simp [hk, PropertyKind.isRequiredField, hrequired, hkey]
  · simp [hk, PropertyKind.declaredName?]

theorem setsRequired_cls (ctx : Context) (ident : ClassId) (location : Location) :
    Returns Class.SetsRequired (cls ctx ident location) := by
  refine .bind_any fun d => .bind_any fun name =>
    (returns_checkValues _ _ _).bind fun _ hset => .pure ?_
  intro v hv p hp r hk hrequired hkey
  obtain ⟨i, hi, rfl⟩ := List.mem_mapIdx.mp hp
  exact hset v hv _ (mem_requiredFields (List.getElem_mem hi) hk hrequired hkey)

/-! ### The classes of a file -/

variable {P : Class → Prop}

theorem forall_classes_entity (hcls : ∀ ctx ident location, Returns P (cls ctx ident location))
    (ctx : Context)
    {f : ModelFile} (hf : ∀ c ∈ f.classes, P c) :
    Returns (fun f' => ∀ c ∈ f'.classes, P c) (entity ctx f) := by
  have hend : ∀ {f' : ModelFile}, (∀ c ∈ f'.classes, P c) →
      Returns (fun f' => ∀ c ∈ f'.classes, P c)
      (do if ← Read.consumeIf .mappingEnd then return f'
          Read.fail .severalEntities (← Read.location)) := by
    intro f' hf'
    refine .bind_any fun b => ?_
    cases b with
    | true => exact .pure hf'
    | false => exact .bind_any fun _ => .fail _ _
  refine .bind_any fun _ => .bind_any fun kind => ?_
  dsimp only
  split
  · exact .bind_any fun _ => hend hf
  · exact .bind_any fun _ => hend hf
  · refine (hcls _ _ _).bind fun c hc => hend fun c' hc' => ?_
    rcases List.mem_append.mp hc' with hc' | hc'
    · exact hf c' hc'
    · exact List.mem_singleton.mp hc' ▸ hc
  · exact .bind_any fun _ => hend hf
  · exact .bind_any fun _ => hend hf
  · exact .bind (P := fun _ => False) (.fail _ _) fun _ h => h.elim

theorem forall_classes_entities (hcls : ∀ ctx ident location, Returns P (cls ctx ident location))
    (ctx : Context) (fuel : Nat) : ∀ {f : ModelFile}, (∀ c ∈ f.classes, P c) →
      Returns (fun f' => ∀ c ∈ f'.classes, P c) (entities ctx fuel f) := by
  induction fuel with
  | zero => exact fun hf => .pure hf
  | succ fuel ih =>
    intro f hf
    refine .bind_any fun b => ?_
    cases b with
    | true => exact (forall_classes_entity hcls ctx hf).bind fun _ hf' => .bind_any fun _ => ih hf'
    | false => exact .pure hf

/-- **What is true of every class that is read is true of all classes of a file.** -/
theorem forall_classes_file (hcls : ∀ ctx ident location, Returns P (cls ctx ident location))
    (ident : FileId) (name app : String) (naming : NamingRules) :
    Returns (fun o => ∀ f, o = some f → ∀ c ∈ f.classes, P c) (file ident name app naming) := by
  refine .bind_any fun _ => .bind_any fun b => ?_
  cases b with
  | true => exact .pure (by simp)
  | false =>
    refine .bind_any fun start => .bind_any fun (h, modulePath) => .bind_any fun _ =>
      .bind_any fun r => ?_
    refine (forall_classes_entities hcls _ _ (by simp)).bind fun f hf => .bind_any fun _ => .pure ?_
    rintro _ ⟨⟩
    exact hf

end Loading

namespace ModelFile

variable {id : FileId} {name source app : String} {naming : NamingRules} {f : ModelFile}

/-- **In a loaded file every value sets the required properties that its class declares**, keys
apart. -/
theorem setsRequired_of_load (h : load id name source app naming = .ok (some f)) :
    ∀ c ∈ f.classes, c.SetsRequired := by
  obtain ⟨events, r, -, hrun⟩ := exists_run_of_load h
  exact Loading.forall_classes_file Loading.setsRequired_cls id name app naming _ _ _ hrun f rfl

end ModelFile

end EntityModel
