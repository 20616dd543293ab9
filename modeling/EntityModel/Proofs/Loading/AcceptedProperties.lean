import EntityModel.Loading.Property
import EntityModel.Proofs.Loading.AcceptedBlocks

/-!
# Which properties the loader accepts

The first key of a property tells its kind.  Besides the form of the block, reading a property
leaves the name that the values of its class will have to set.
-/

namespace EntityModel.Loading

open Source Grammar

/-! ### Regular properties -/

/-- What finishing a regular property and the values of its class look at. -/
structure RegularDraft.Holds (entries : List Entry) (d : RegularDraft) : Prop where
  name : d.name.map Located.value = text? "name" entries
  domain : d.domain.map Located.value = text? "domain" entries
  required : d.required = flag "required" entries
  primaryKey : d.primaryKey = flag "primaryKey" entries

theorem gathers_regular : Gathers RegularDraft.set (known regularKeys) RegularDraft.Holds := by
  refine .ofKeys fun before ⟨key, start⟩ d l ⟨hname, hdomain, hrequired, hkey⟩ => ?_
  dsimp only [RegularDraft.set]
  split
  · exact reads_field rfl .optionalScalar fun node a ha => by constructor <;> simp [*]
  · exact reads_field rfl .optionalString fun node a ha => by constructor <;> simp [*]
  · exact reads_field rfl .optionalString fun node a ha => by constructor <;> simp [*]
  · exact reads_field rfl .bool fun node a ha => by constructor <;> simp [*]
  · exact reads_field rfl .bool fun node a ha => by constructor <;> simp [*]
  · exact reads_field rfl .optionalScalar fun node a ha => by constructor <;> simp [*]
  · exact reads_field rfl .optionalString fun node a ha => by constructor <;> simp [*]
  · exact reads_field rfl .bool fun node a ha => by constructor <;> simp [*]
  · exact reads_unknownKey (by simp_all [regularKeys, List.lookup_eq_none_iff])

theorem takes_regularFinish {entries : List Entry} {d : RegularDraft} (h : d.Holds entries)
    (location : Location) :
    Takes (d.finish location) [] (present "name" entries && present "domain" entries) fun p =>
      (if p.required && !p.primaryKey then some p.name.value else none)
        = if flag "required" entries && !flag "primaryKey" entries then text? "name" entries
          else none := by
  refine Takes.andThen (takes_required h.name _ _) fun name _ hname => ?_
  refine (takes_required h.domain _ _).map fun domain _ => ?_
  rw [← h.required, ← h.primaryKey, ← h.name, hname]
  rfl

/-! ### Associations -/

theorem reads_cardinality (p : AssociationProperty) :
    Reads (do
      let s ← Read.scalar
      match Cardinality.ofName? s.value with
      | some cardinality => return { p with cardinality }
      | none => Read.fail (.unknownCardinality s.value) s.location) isCardinality fun _ _ =>
          True := by
  refine (Reads.ofScalar (P := fun _ _ => True) fun text l => ?_).mono fun _ _ _ => trivial
  cases Cardinality.ofName? text with
  | some cardinality => exact .pure trivial
  | none => exact .fail _ _

theorem gathers_association : Gathers setAssociation (known associationKeys) fun _ _ => True := by
  refine .ofKeys fun before ⟨key, start⟩ p l hI => ?_
  dsimp only [setAssociation]
  split
  · exact reads_key rfl (reads_cardinality p)
  · exact reads_field rfl .optionalString fun _ _ _ => trivial
  · exact reads_field rfl .optionalScalar fun _ _ _ => trivial
  · exact reads_field rfl .optionalString fun _ _ _ => trivial
  · exact reads_field rfl .optionalString fun _ _ _ => trivial
  · exact reads_field rfl .bool fun _ _ _ => trivial
  · exact reads_field rfl .bool fun _ _ _ => trivial
  · exact reads_field rfl .optionalString fun _ _ _ => trivial
  · exact reads_field rfl .bool fun _ _ _ => trivial
  · exact reads_field rfl .optionalScalar fun _ _ _ => trivial
  · exact reads_field rfl .optionalScalar fun _ _ _ => trivial
  · exact reads_field rfl .optionalString fun _ _ _ => trivial
  · exact reads_unknownKey (by simp_all [associationKeys, List.lookup_eq_none_iff])

/-! ### Compositions -/

theorem gathers_composition :
    Gathers CompositionDraft.set (known compositionKeys) fun entries d =>
      d.name.map Located.value = text? "name" entries := by
  refine .ofKeys fun before ⟨key, start⟩ d l hI => ?_
  dsimp only [CompositionDraft.set]
  split
  · exact reads_field rfl .optionalScalar fun node a ha => by simp [ha]
  · exact reads_field rfl .optionalScalar fun node a ha => by simp [hI]
  · exact reads_field rfl .optionalString fun node a ha => by simp [hI]
  · exact reads_field rfl .optionalString fun node a ha => by simp [hI]
  · exact reads_unknownKey (by simp_all [compositionKeys, List.lookup_eq_none_iff])

theorem takes_compositionFinish {entries : List Entry} {d : CompositionDraft}
    (h : d.name.map Located.value = text? "name" entries) (target : Located String)
    (location : Location) :
    Takes (d.finish target location) [] (present "name" entries) fun _ => True :=
  (takes_required h _ _).map fun _ _ => trivial

/-! ### Aliases of properties -/

/-- What checking the target of an alias looks at. -/
structure AliasTarget.Holds (entries : List Entry) (t : AliasTarget) : Prop where
  cls : t.cls.map Located.value = text? "class" entries
  property : t.property.map Located.value = text? "property" entries
  only : t.only.isEmpty = !(value? "include" entries).any chooses
  exclude : t.exclude.isEmpty = !(value? "exclude" entries).any chooses

theorem gathers_aliasTarget :
    Gathers AliasTarget.set (known aliasTargetKeys) AliasTarget.Holds := by
  refine .ofKeys fun before ⟨key, start⟩ t l ⟨hcls, hproperty, honly, hexclude⟩ => ?_
  dsimp only [AliasTarget.set]
  split
  · exact reads_field rfl .optionalScalar fun node a ha => by
      constructor <;> simp [value?_concat, *]
  · exact reads_field rfl .optionalScalar fun node a ha => by
      constructor <;> simp [value?_concat, *]
  · exact reads_field rfl .scalarList fun node a ha => by constructor <;> simp [value?_concat, *]
  · exact reads_field rfl .scalarList fun node a ha => by constructor <;> simp [value?_concat, *]
  · exact reads_unknownKey (by simp_all [aliasTargetKeys, List.lookup_eq_none_iff])

theorem reads_affix : Reads affix isScalar fun _ _ => True := by
  intro o node
  rw [← Bool.and_true (isScalar node)]
  refine Takes.andThen (Reads.optionalString o node) fun text _ _ => ?_
  split <;> exact .pure trivial

theorem gathers_propertyAlias :
    Gathers PropertyAliasDraft.set (known propertyAliasKeys) fun _ _ => True := by
  refine .ofKeys fun before ⟨key, start⟩ d l hI => ?_
  dsimp only [PropertyAliasDraft.set]
  split
  · exact reads_field rfl .optionalScalar fun _ _ _ => trivial
  · exact reads_field rfl reads_affix fun _ _ _ => trivial
  · exact reads_field rfl reads_affix fun _ _ _ => trivial
  · exact reads_field rfl .optionalString fun _ _ _ => trivial
  · exact reads_field rfl .optionalString fun _ _ _ => trivial
  · exact reads_field rfl .bool fun _ _ _ => trivial
  · exact reads_field rfl .optionalString fun _ _ _ => trivial
  · exact reads_field rfl .bool fun _ _ _ => trivial
  · exact reads_field rfl .optionalScalar fun _ _ _ => trivial
  · exact reads_unknownKey (by simp_all [propertyAliasKeys, List.lookup_eq_none_iff])

theorem takes_propertyAliasFinish {entries : List Entry} {t : AliasTarget} (h : t.Holds entries)
    (d : PropertyAliasDraft) (location : Location) :
    Takes (d.finish t location) [] (present "class" entries && selects entries) fun _ => True := by
  refine Takes.andThen (takes_required h.cls _ _) fun cls _ _ => ?_
  have hselects : selects entries
      = !(t.property.isSome && !(t.only.isEmpty && t.exclude.isEmpty)) := by
    simp [selects, present, ← h.property, h.only, h.exclude]
  rw [hselects]
  split
  · rename_i hboth
    rw [hboth]
    exact Takes.bind_failed (Q := fun _ => True) (.fail _ _)
  · rename_i hboth
    rw [Bool.not_eq_true] at hboth
    rw [hboth]
    exact .pure trivial

/-! ### Properties -/

/-- The name that every value of the class must set. -/
def PropertyDraft.requiredName? (d : PropertyDraft) : Option String :=
  if d.kind.isRequiredField then d.kind.declaredName?.map Located.value else none

section Kinds

variable (location : Location) (o : Offset) (value : Node) (rest : List Entry) (stop : Event)
  (hstop : stop.kind = .mappingEnd)

include hstop

theorem takes_association :
    Takes (do
        let p ← Read.remaining setAssociation (associationTo (← Read.scalar))
        return PropertyDraft.mk location (.association p))
      (value.events o ++ (Node.entryEvents o rest ++ [stop]))
      (isScalar value && known associationKeys rest) (·.requiredName? = none) := by
  refine (Reads.scalar o value).bind fun target _ _ => ?_
  exact (gathers_association.remaining o hstop [] rest rfl trivial).map fun _ _ => rfl

theorem takes_composition :
    Takes (do
        let target ← Read.scalar
        let d ← Read.remaining CompositionDraft.set {}
        return PropertyDraft.mk location (.composition (← d.finish target location)))
      (value.events o ++ (Node.entryEvents o rest ++ [stop]))
      (isScalar value && (known compositionKeys rest && present "name" rest))
      (·.requiredName? = none) := by
  refine (Reads.scalar o value).bind fun target _ _ => ?_
  refine (gathers_composition.remaining o hstop [] rest rfl rfl).andThen fun d _ hname => ?_
  exact (takes_compositionFinish hname _ _).map fun _ _ => rfl

theorem takes_propertyAlias :
    Takes (do
        let target ← Read.mapping AliasTarget.set {}
        let d ← Read.remaining PropertyAliasDraft.set {}
        return PropertyDraft.mk location (.propertyAlias (← d.finish target location)))
      (value.events o ++ (Node.entryEvents o rest ++ [stop]))
      (aliasTarget value && known propertyAliasKeys rest)
      (·.requiredName? = none) := by
  have hshape : (aliasTarget value && known propertyAliasKeys rest)
      = (mappingOf (known aliasTargetKeys) value && (known propertyAliasKeys rest &&
          (present "class" (entriesOf value) && selects (entriesOf value)))) := by
    cases value with
    | mapping start stop entries =>
      simp only [aliasTarget, mappingOf, entriesOf]
      ac_rfl
    | scalar s => rfl
    | sequence start stop items => rfl
  rw [hshape]
  refine (gathers_aliasTarget.mapping rfl ⟨rfl, rfl, rfl, rfl⟩ o value).bind fun target _ htarget =>
    ?_
  refine (gathers_propertyAlias.remaining o hstop [] rest rfl trivial).andThen fun d _ _ => ?_
  exact (takes_propertyAliasFinish htarget d _).map fun _ _ => rfl

theorem takes_regular (key : Scalar) :
    Takes (do
        let d ← RegularDraft.set {} ⟨key.text, o.ofScalar key⟩
        let d ← Read.remaining RegularDraft.set d
        return PropertyDraft.mk location (.regular (← d.finish location)))
      (value.events o ++ (Node.entryEvents o rest ++ [stop]))
      (known regularKeys ((key, value) :: rest) && present "name" ((key, value) :: rest)
        && present "domain" ((key, value) :: rest))
      (·.requiredName?
        = if flag "required" ((key, value) :: rest)
          && !flag "primaryKey" ((key, value) :: rest) then
            text? "name" ((key, value) :: rest)
          else none) := by
  have hshape : (known regularKeys ((key, value) :: rest) && present "name" ((key, value) :: rest)
        && present "domain" ((key, value) :: rest))
      = (known regularKeys [(key, value)] && (known regularKeys ((key, value) :: rest)
        && (present "name" ((key, value) :: rest)
          && present "domain" ((key, value) :: rest)))) := by
    simp only [known, List.all_cons, List.all_nil, Bool.and_true, ← Bool.and_assoc, Bool.and_self]
  rw [hshape]
  -- The first entry is read like any other, before the loop over the rest.
  refine (gathers_regular.step [] key {} (o.ofScalar key) rfl ⟨rfl, rfl, rfl, rfl⟩ o value).bind
    fun d hok hd => ?_
  refine (gathers_regular.remaining o hstop [(key, value)] rest hok hd).andThen fun d _ hd => ?_
  exact (takes_regularFinish hd location).map fun p hp => hp

end Kinds

theorem reads_property :
    Reads property Grammar.property fun node d => d.requiredName? = Grammar.requiredName? node := by
  refine .firstKey (fun node h => ?_) fun o start stop key value rest opening => ?_
  · unfold Grammar.property
    split
    · exact absurd h (List.cons_ne_nil _ _)
    · rfl
  dsimp only
  set shape := Grammar.property (.mapping start stop ((key, value) :: rest)) with hshape
  split
  · rename_i hkind
    have hok : shape = (isScalar value && known associationKeys rest) := by
      simp [hshape, Grammar.property, hkind]
    have hnone : requiredName? (.mapping start stop ((key, value) :: rest)) = none := by
      simp [requiredName?, entriesOf, kindKeys, hkind]
    rw [hok, hnone]
    exact takes_association _ o value rest _ rfl
  · rename_i hkind
    have hok : shape = (isScalar value && (known compositionKeys rest && present "name" rest)) := by
      simp [hshape, Grammar.property, hkind, Bool.and_assoc]
    have hnone : requiredName? (.mapping start stop ((key, value) :: rest)) = none := by
      simp [requiredName?, entriesOf, kindKeys, hkind]
    rw [hok, hnone]
    exact takes_composition _ o value rest _ rfl
  · rename_i hkind
    have hok : shape = (aliasTarget value && known propertyAliasKeys rest) := by
      simp [hshape, Grammar.property, hkind]
    have hnone : requiredName? (.mapping start stop ((key, value) :: rest)) = none := by
      simp [requiredName?, entriesOf, kindKeys, hkind]
    rw [hok, hnone]
    exact takes_propertyAlias _ o value rest _ rfl
  · rename_i hassociation hcomposition halias
    have hok : shape = (known regularKeys ((key, value) :: rest)
          && present "name" ((key, value) :: rest)
        && present "domain" ((key, value) :: rest)) := by
      simp [hshape, Grammar.property]
    have hkinds : kindKeys.contains key.text = false := by
      simpa [kindKeys] using ⟨hassociation, hcomposition, halias⟩
    have hname : requiredName? (.mapping start stop ((key, value) :: rest))
        = if flag "required" ((key, value) :: rest)
          && !flag "primaryKey" ((key, value) :: rest) then
            text? "name" ((key, value) :: rest)
          else none := by
      simp only [requiredName?, entriesOf, hkinds]
      rfl
    rw [hok, hname]
    exact takes_regular _ o value rest _ rfl key

end EntityModel.Loading
