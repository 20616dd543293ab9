import EntityModel.Naming.Column
import EntityModel.Proofs.Validation.Integrity

/-!
# Trigrams in a linked store

The trigram of a class stands in capitals before the columns of its properties
(`columnName_carrying`), and linking reports trigrams that are written alike.  So without errors the
columns of two classes with trigrams start alike just if the trigrams differ in small and capital
letters only (`Reachable.trigrams_apart`), and never where trigrams are written in capitals.
-/

namespace EntityModel

/-- The column of the property starts with the trigram of the class that it stands on.  Compositions
have none, an association starts as the key that it points to, and an alias without a name of its
own as its target. -/
def Property.carriesTrigram (p : Property) : Bool :=
  match p.kind with
  | .regular _ => true
  | .propertyAlias a =>
    a.name.isSome || a.before.isSome || a.after.isSome || (a.property.bind Reference.target).isNone
  | _ => false

namespace Model

variable {m : Model} {rules : NamingRules}

/-- What stands before the columns of a class. -/
def columnStart (m : Model) (id : ClassId) : String := m.withTrigram (some id) ""

theorem withTrigram_eq (m : Model) (id : ClassId) (name : String) :
    m.withTrigram (some id) name = m.columnStart id ++ name := by
  unfold columnStart withTrigram
  cases ((some id).bind m.cls?).bind Class.trigram <;> simp

theorem columnStart_of_trigram {c : Class} (hc : m.cls? c.id = some c) {t : Located String}
    (ht : c.trigram = some t) : m.columnStart c.id = Text.upper t.value ++ "_" := by
  simp [columnStart, withTrigram, hc, ht]

/-- **Columns start with the trigram of the class that the property stands on**; where none is named
it is the owner. -/
theorem columnName_carrying {p : Property} (hp : m.property? p.id = some p)
    (hcarries : p.carriesTrigram = true)
    {host : Option ClassId} {id : ClassId} (hhost : host.or p.owner.cls? = some id) :
    ∃ rest, m.columnName rules p.id host = m.columnStart id ++ rest := by
  have howner : host.or p.id.owner.cls? = some id := hhost
  unfold columnName columnWithin
  unfold Property.carriesTrigram at hcarries
  simp only [hp, howner]
  cases hk : p.kind with
  | regular r => exact ⟨_, m.withTrigram_eq id _⟩
  | composition | association => simp [hk] at hcarries
  | propertyAlias a =>
    simp only [hk] at hcarries ⊢
    cases ht : a.property.bind Reference.target with
    | none => exact ⟨_, m.withTrigram_eq id _⟩
    | some target =>
      rw [ht, Option.isNone_some, Bool.or_false] at hcarries
      simp only [hcarries, if_true]
      exact ⟨_, m.withTrigram_eq id _⟩

/-- Where no trigram is declared twice, different classes have different trigrams. -/
theorem trigrams_ne (h : m.trigrams.Nodup) {c d : Class} (hc : c ∈ m.classes)
    (hd : d ∈ m.classes) (hne : c ≠ d)
    {t u : Located String} (ht : c.trigram = some t) (hu : d.trigram = some u) :
    t.value ≠ u.value := by
  have hsymm : Std.Symm fun c d : Class => ∀ x, c.trigram.map (·.value) = some x →
      ∀ y, d.trigram.map (·.value) = some y → x ≠ y :=
      ⟨fun _ _ hxy x hx y hy => (hxy y hy x hx).symm⟩
  have hpairs := (List.pairwise_filterMap.mp h).forall hc hd hne
  exact hpairs t.value (by rw [ht]; rfl) u.value (by rw [hu]; rfl)

end Model

namespace Store

open Linking

variable {s : Store}

/-- **Without errors, trigrams separate the columns of classes but for small and capital letters.**
The columns of each class with a trigram start with it, written in capitals.  Two classes have
different trigrams, and what stands before their columns is the same if and only if the trigrams are
the same in capitals, which they are not where both are written in capitals. -/
theorem Reachable.trigrams_apart (h : s.Reachable) (hnone : s.link.2.errors = 0) :
    ∀ c ∈ s.link.1.model.classes, ∀ t, c.trigram = some t →
      s.link.1.model.columnStart c.id = Text.upper t.value ++ "_" ∧
      (∀ p ∈ s.link.1.model.classProperties c.id, p.carriesTrigram = true →
        (∃ rest, s.link.1.model.columnName s.naming p.id (some c.id)
          = s.link.1.model.columnStart c.id ++ rest) ∧
        (p.owner = .cls c.id → ∃ rest, s.link.1.model.columnName s.naming p.id none
          = s.link.1.model.columnStart c.id ++ rest)) ∧
      ∀ d ∈ s.link.1.model.classes, d.id ≠ c.id → ∀ u, d.trigram = some u →
        t.value ≠ u.value ∧
        (s.link.1.model.columnStart c.id = s.link.1.model.columnStart d.id
          ↔ Text.upper t.value = Text.upper u.value) ∧
        (Text.upper t.value = t.value → Text.upper u.value = u.value →
          s.link.1.model.columnStart c.id ≠ s.link.1.model.columnStart d.id) := by
  have hapart := (h.integrity.1 hnone).trigrams
  have hm := h.numbered_link
  generalize s.link.1.model = m at hapart hm
  intro c hc t ht
  have hstart := Model.columnStart_of_trigram (hm.cls?_iff.mpr ⟨hc, rfl⟩) ht
  refine ⟨hstart, fun p hp hcarries => ?_, fun d hd hne u hu => ?_⟩
  · have hfound := hm.property?_of_mem (hm.mem_of_classProperties hp)
    refine ⟨Model.columnName_carrying hfound hcarries rfl, fun howner => ?_⟩
    exact Model.columnName_carrying hfound hcarries (by rw [howner]; rfl)
  · have hdiffer := Model.trigrams_ne hapart hc hd (fun he => hne (congrArg Class.id he).symm) ht hu
    have hsame : m.columnStart c.id = m.columnStart d.id ↔
        Text.upper t.value = Text.upper u.value := by
      rw [hstart, Model.columnStart_of_trigram (hm.cls?_iff.mpr ⟨hd, rfl⟩) hu, ← String.toList_inj,
        String.toList_append, String.toList_append, List.append_cancel_right_eq, String.toList_inj]
    refine ⟨hdiffer, hsame, fun ht' hu' he => hdiffer ?_⟩
    rw [← ht', ← hu', hsame.mp he]

/-- A store with two classes whose trigrams differ in their letters' case only. -/
def alikeInCapitals : Store :=
  loadAll {} [("A",
    "module: M\n---\nclass:\n name: K\n trigram: abc\n---\nclass:\n name: L\n trigram: ABC")]

/-- There linking reports no error, and before the columns of both classes stands the same. -/
theorem trigrams_apart_in_alikeInCapitals :
    alikeInCapitals.Reachable ∧ alikeInCapitals.link.2.errors = 0 ∧
      ∃ c ∈ alikeInCapitals.link.1.model.classes, ∃ d ∈ alikeInCapitals.link.1.model.classes, ∃ t u,
        c.trigram = some t ∧ d.trigram = some u ∧ t.value = "abc" ∧ u.value = "ABC" ∧
        t.value ≠ u.value ∧
        alikeInCapitals.link.1.model.columnStart c.id
          = alikeInCapitals.link.1.model.columnStart d.id := by
  have hreach : alikeInCapitals.Reachable := reachable_loadAll {} _
  obtain ⟨hnone, htrigrams⟩ : alikeInCapitals.link.2.errors = 0 ∧
      alikeInCapitals.link.1.model.classes.map (fun c => (c.id.index, c.trigram.map (·.value)))
        = [(0, some "abc"), (1, some "ABC")] := by
    have hspelled : alikeInCapitals = _ := loadAll_eq_foldl (.cons String.toList_ofList .nil)
    rw [hspelled]
    decide +kernel
  have hwritten : ∀ x ∈ [(0, some "abc"), (1, some "ABC")],
      ∃ c ∈ alikeInCapitals.link.1.model.classes,
      (c.id.index, c.trigram.map (·.value)) = x := by
    intro x hx
    rw [← htrigrams] at hx
    exact List.mem_map.mp hx
  obtain ⟨c, hc, hsmall⟩ := hwritten (0, some "abc") List.mem_cons_self
  obtain ⟨d, hd, hcapital⟩ := hwritten (1, some "ABC") (List.mem_cons_of_mem _ List.mem_cons_self)
  obtain ⟨hzero, hsmall⟩ := Prod.mk.inj hsmall
  obtain ⟨hone, hcapital⟩ := Prod.mk.inj hcapital
  obtain ⟨t, ht, hvalue⟩ := Option.map_eq_some_iff.mp hsmall
  obtain ⟨u, hu, hvalue'⟩ := Option.map_eq_some_iff.mp hcapital
  have hne : d.id ≠ c.id := fun he => by rw [he, hzero] at hone; exact absurd hone (by decide)
  obtain ⟨hdiffer, hsame, -⟩ := (Reachable.trigrams_apart hreach hnone c hc t ht).2.2 d hd hne u hu
  refine ⟨hreach, hnone, c, hc, d, hd, t, u, ht, hu, hvalue, hvalue', hdiffer, hsame.mpr ?_⟩
  rw [hvalue, hvalue']
  decide +kernel

end Store

end EntityModel
