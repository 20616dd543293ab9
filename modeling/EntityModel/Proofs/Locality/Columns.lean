import EntityModel.Naming.Column
import EntityModel.Proofs.Locality.Parts

/-!
# Columns of a part

A column is made of names, of the trigram of a class and of what a property points to.  A closed set
of files has all of these in its part, so its columns are the same in the part and in the whole
model (`Closed.columnName`).
-/

namespace EntityModel

open Naming Linking

namespace Model

variable {K : FileId → Bool} {m : Model} {rules : NamingRules} {settled : Bool}

theorem withTrigram_part {host : Option ClassId} (hK : ∀ C, host = some C → K C.file = true)
    (name : String) :
    (m.part K).withTrigram host name = m.withTrigram host name := by
  have htrigram : (host.bind (m.part K).cls?).bind Class.trigram
      = (host.bind m.cls?).bind Class.trigram := by
    cases host with
    | none => rfl
    | some C =>
      rw [Option.bind_some, Option.bind_some, cls?_part (hK C rfl), Option.bind_map]
      rfl
  unfold withTrigram
  rw [htrigram]

theorem Closed.parent? (h : m.Closed K) (hm : m.Numbered) {C : ClassId} (hC : K C.file = true) :
    (m.part K).parent? C = m.parent? C ∧ ∀ P, m.parent? C = some P → K P.file = true := by
  unfold Model.parent?
  rw [cls?_part hC]
  cases hc : m.cls? C with
  | none => exact ⟨rfl, fun P hP => absurd hP (by simp)⟩
  | some c =>
    obtain ⟨hmem, rfl⟩ := hm.cls?_iff.mp hc
    exact ⟨rfl, h.parents c hmem hC⟩

theorem owner_of_cls? {o : PropertyOwner} {C : ClassId} (h : o.cls? = some C) :
    C.file = o.file := by
  cases o with
  | cls id => obtain rfl := Option.some.inj h; rfl
  | _ => exact absurd h (by simp [PropertyOwner.cls?])

theorem Closed.withoutOwner (h : m.Closed K) (hm : m.Numbered) {id : PropertyId}
    (hK : K id.owner.file = true) (name : String) :
    (m.part K).withoutOwner id name = m.withoutOwner id name := by
  unfold Model.withoutOwner
  cases hC : id.owner.cls? with
  | none => rfl
  | some C =>
    have hCK : K C.file = true := owner_of_cls? hC ▸ hK
    obtain ⟨hparent, hfile⟩ := h.parent? hm hCK
    simp only [hparent, bind, Option.bind_some]
    cases hP : m.parent? C with
    | none => rfl
    | some P =>
      simp only [Option.bind_some, List.filterMap_cons, List.filterMap_nil, cls?_part hCK,
        cls?_part (hfile P hP)]
      cases m.cls? C <;> cases m.cls? P <;> rfl

theorem Closed.columnWithin (h : m.Closed K) (hs : Sound rules settled m) (fuel : Nat) :
    ∀ (id : PropertyId) (host : Option ClassId), K id.owner.file = true →
      (∀ C, host = some C → K C.file = true) →
      (m.part K).columnWithin rules fuel id host = m.columnWithin rules fuel id host := by
  have hname : ∀ id : PropertyId, K id.owner.file = true →
      (m.part K).propertyName rules id = m.propertyName rules id := fun id hK => by
    rw [Model.propertyName, Model.propertyName, h.propertyName? hs hK]
  induction fuel with
  | zero => exact fun id host hK _ => congrArg Text.constantCase (hname id hK)
  | succ fuel ih =>
    intro id host hK hhost
    have hhost' : ∀ C, host.or id.owner.cls? = some C → K C.file = true := by
      intro C hC
      cases host with
      | none => exact owner_of_cls? hC ▸ hK
      | some D => exact hhost C hC
    unfold Model.columnWithin
    simp only [hname id hK, property?_part hK, withTrigram_part hhost',
      h.withoutOwner hs.numbered hK]
    cases hp : m.property? id with
    | none => rfl
    | some p =>
      have hmem := mem_of_property? hs.numbered hp
      have howner : K p.owner.file = true := by rwa [hs.numbered.owner_of_property? hp]
      simp only [Option.map_some, Property.plain]
      cases hk : p.kind with
      | regular r => rfl
      | composition c => rfl
      | association a =>
        obtain ⟨hkey, hfile⟩ := h.keyOf hs hmem howner hk
        simp only [PropertyKind.plain, hkey]
        cases hC : a.association.target with
        | none => rfl
        | some C =>
          cases ht : m.keyOf a with
          | none => rfl
          | some t =>
            have hCK := h.pointsTo p hmem howner C (by simp [Property.pointsTo, hk, hC])
            simp only [hname t (hfile t ht), ih t (some C) (hfile t ht) fun D hD =>
              Option.some.inj hD ▸ hCK]
      | propertyAlias a =>
        simp only [PropertyKind.plain]
        cases ht : a.property.bind Reference.target with
        | none => rfl
        | some t =>
          obtain ⟨r, hr, htarget⟩ := Option.bind_eq_some_iff.mp ht
          have hfile := h.target_file hs hmem howner (c := a.cls) (r := r)
            (by simp [hk, PropertyKind.lookup?, hr]) htarget
          simp only [ih t none hfile fun C hC => absurd hC (by simp)]

/-- **A property of the set has the same column in the part as in the model.** -/
theorem Closed.columnName (h : m.Closed K) (hs : Sound rules settled m) {id : PropertyId}
    (hK : K id.owner.file = true) :
    (m.part K).columnName rules id none = m.columnName rules id none :=
  h.columnWithin hs _ id none hK fun C hC => absurd hC (by simp)

end Model

end EntityModel
