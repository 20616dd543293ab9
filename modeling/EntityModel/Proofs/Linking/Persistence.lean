import EntityModel.Proofs.Linking.AliasRuns
import EntityModel.Proofs.Model.Frame
import EntityModel.Proofs.Source.Making

/-!
# What stays through the rounds

`Run.sound` says of each model on the way what is true in it; this module says what stays from one
to a later one.  A settled class stays settled and keeps its properties, each under its id and at
its place in the source, changed by no more than a reference that was resolved; what goes by a name
goes by it later (`Keeps`).  Whatever a reference points to lies in a settled class, and so it is
the same property from then on (`Keeps.staysPut`).  Everything but property lists stays as it is
(`Run.sameFrame`).
-/

namespace EntityModel

theorem PropertyKind.Resolves.trans {k k' k'' : PropertyKind} (h : k.Resolves k')
    (h' : k'.Resolves k'') : k.Resolves k'' := by
  cases h with
  | refl => exact h'
  | association id ha hr =>
    cases h' with
    | refl => exact .association id ha hr
    | association id' ha' hr' =>
      obtain rfl := Option.some.inj ha'
      simp [Reference.resolve] at hr'
  | propertyAlias id ha hr =>
    cases h' with
    | refl => exact .propertyAlias id ha hr
    | propertyAlias id' ha' hr' =>
      obtain rfl := Option.some.inj ha'
      simp [Reference.resolve] at hr'

/-- The property stands where it stood, in the source and by its id, and only its reference may have
been resolved. -/
structure Property.StaysAs (q q' : Property) : Prop where
  id : q'.id = q.id
  location : q'.location = q.location
  kind : q.kind.Resolves q'.kind

theorem Property.StaysAs.refl (q : Property) : q.StaysAs q := ⟨rfl, rfl, .refl _⟩

theorem Property.StaysAs.trans {q q' q'' : Property} (h : q.StaysAs q') (h' : q'.StaysAs q'') :
    q.StaysAs q'' :=
  ⟨h'.id.trans h.id, h'.location.trans h.location, h.kind.trans h'.kind⟩

theorem Model.Resolving.staysAs {m : Model} {g : Property → Property} (hg : m.Resolving g)
    {q : Property}
    (hq : q ∈ m.properties) : q.StaysAs (g q) := ⟨hg.id q, hg.location q, hg.kind q hq⟩

namespace Linking

variable {rules : NamingRules} {m m' m'' : Model}

/-- What settled classes hold stays, and so does what goes by a name in them. -/
structure Keeps (rules : NamingRules) (m m' : Model) : Prop where
  settled : ∀ C, isSettled m C = true → isSettled m' C = true
  properties : ∀ C, isSettled m C = true →
    List.Forall₂ Property.StaysAs (m.classProperties C) (m'.classProperties C)
  names : ∀ C name t, isSettled m C = true → m.GoesBy rules C name t → m'.GoesBy rules C name t

theorem Keeps.refl (m : Model) : Keeps rules m m where
  settled _ h := h
  properties _ _ := List.forall₂_same.mpr fun q _ => .refl q
  names _ _ _ _ h := h

theorem Keeps.trans (h : Keeps rules m m') (h' : Keeps rules m' m'') : Keeps rules m m'' where
  settled C hs := h'.settled C (h.settled C hs)
  properties C hs :=
    forall₂_comp (R := Property.StaysAs) (S := Property.StaysAs) (fun _ _ _ => .trans)
      (h.properties C hs) (h'.properties C (h.settled C hs))
  names C name t hs hg := h'.names C name t (h.settled C hs) (h.names C name t hs hg)

theorem Keeps.mapProperties {g : Property → Property} (hm : m.Numbered) (hg : m.Resolving g) :
    Keeps rules m (m.mapProperties g) where
  settled C hs := by rwa [isSettled_mapProperties hg hm]
  properties C _ := by
    rw [Model.classProperties_mapProperties, List.forall₂_map_right_iff]
    exact List.forall₂_same.mpr fun q hq => hg.staysAs (hm.mem_of_classProperties hq)
  names C name t _ h := h.mapProperties hg hm

theorem Keeps.applyExpansions {expansions : List (PropertyId × List PropertyKind)}
    (h : Sound rules true m) (hf : Fits m expansions) :
    Keeps rules m (applyExpansions m expansions) where
  settled C hs := by
    rw [isSettled_iff, hf.classProperties_of_settled h.numbered hs]
    exact isSettled_iff.mp hs
  properties C hs := by
    rw [hf.classProperties_of_settled h.numbered hs]
    exact List.forall₂_same.mpr fun q _ => .refl q
  names C name t hs hg := by
    -- as for a reference that is resolved to it
    have hr : Grounded rules true m { name := ⟨"", default⟩, target := some C }
        { name := ⟨name, default⟩, target := some t } := by
      rintro _ ⟨⟩
      exact ⟨C, rfl, fun _ => hs, hg⟩
    obtain ⟨C', hC', _, hg'⟩ := hr.applyExpansions h hf t rfl
    obtain rfl := Option.some.inj hC'
    exact hg'

theorem Move.keeps {s s' : AliasState} (h : Move rules s s') (hs : Sound rules true s.model) :
    Keeps rules s.model s'.model := by
  cases h with
  | associate => exact .mapProperties hs.numbered (resolving_associationRound _ _ _)
  | report | giveUp => exact .refl _
  | point hp hmay => exact .mapProperties hs.numbered (hmay.resolving hs.numbered hp)
  | splice hf => exact .applyExpansions hs hf

theorem Run.keeps {s s' : AliasState} (h : Run rules s s') (hs : Sound rules true s.model) :
    Keeps rules s.model s'.model := by
  induction h with
  | refl => exact .refl _
  | tail hrun hmove ih => exact ih.trans (hmove.keeps (Run.sound hrun hs))

theorem keeps_associationRounds {settled : Bool} (fuel : Nat) (h : Sound rules settled m) :
    Keeps rules m (associationRounds rules settled fuel m) := by
  induction fuel generalizing m with
  | zero => exact .refl _
  | succ fuel ih =>
    unfold associationRounds
    split
    · exact .trans (.mapProperties h.numbered (resolving_associationRound _ _ _))
        (ih h.associationRound)
    · exact .refl _

/-- Changing classes around their properties keeps what they hold. -/
theorem Keeps.mapClasses {g : Class → Class} (hg : Model.Surrounding g)
    (hname : (m.mapClasses g).propertyName? rules = m.propertyName? rules) :
    Keeps rules m (m.mapClasses g) where
  settled C hs := by
    rw [isSettled_iff, Model.classProperties_mapClasses hg]
    exact isSettled_iff.mp hs
  properties C _ := by
    rw [Model.classProperties_mapClasses hg]
    exact List.forall₂_same.mpr fun q _ => .refl q
  names C name t _ h := by
    unfold Model.GoesBy at h ⊢
    rwa [Model.classProperties_mapClasses hg, hname]

/-! ### Properties that are pointed to -/

/-- The property under the id `t` is the same in `m'` as in `m`, and its name, which is known,
too. -/
def StaysPut (rules : NamingRules) (m m' : Model) (t : PropertyId) : Prop :=
  ∃ q q' name, m.property? t = some q ∧ m'.property? t = some q' ∧ q.StaysAs q' ∧
    m.propertyName? rules t = some name ∧ m'.propertyName? rules t = some name

/-- **Whatever a reference points to stays put.** -/
theorem Keeps.staysPut (h : Keeps rules m m') (hs : Sound rules true m) (hm' : m'.Numbered)
    {p : Property} (hp : p ∈ m.properties) {cls : ClassReference} {r : PropertyReference}
    (hl : p.kind.lookup? = some (cls, r)) {t : PropertyId} (ht : r.target = some t) :
    StaysPut rules m m' t := by
  obtain ⟨C, _, hsettled, hname⟩ := hs.grounded p hp cls r hl t ht
  obtain ⟨_, _, _, hname'⟩ := h.names C r.text t (hsettled rfl) hname
  obtain ⟨q, hq, rfl, hname⟩ := hname
  obtain ⟨q', hq', hstay⟩ := exists_of_forall₂ (h.properties C (hsettled rfl)) q hq
  refine ⟨q, q', r.text, hs.numbered.property?_of_owned hq, ?_, hstay, hname, hname'⟩
  rw [← hstay.id]
  exact hm'.property?_of_owned hq'

/-! ### Frames -/

theorem sameFrame_mapProperties (m : Model) (g : Property → Property) :
    Model.SameFrame m (m.mapProperties g) := Model.sameFrame_mapLists m _ _

theorem Move.sameFrame {s s' : AliasState} (h : Move rules s s') :
    Model.SameFrame s.model s'.model := by
  cases h with
  | associate | point => exact sameFrame_mapProperties _ _
  | report | giveUp => exact .refl _
  | splice => exact Model.sameFrame_mapLists _ _ _

theorem Run.sameFrame {s s' : AliasState} (h : Run rules s s') :
    Model.SameFrame s.model s'.model := by
  induction h with
  | refl => exact .refl _
  | tail _ hmove ih => exact ih.trans hmove.sameFrame

theorem sameFrame_associationRounds (settled : Bool) (fuel : Nat) (m : Model) :
    Model.SameFrame m (associationRounds rules settled fuel m) := by
  induction fuel generalizing m with
  | zero => exact .refl _
  | succ fuel ih =>
    unfold associationRounds
    split
    · exact (sameFrame_mapProperties m _).trans (ih _)
    · exact .refl _

end Linking

end EntityModel
