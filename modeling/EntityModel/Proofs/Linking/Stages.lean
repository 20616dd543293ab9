import EntityModel.Proofs.Linking.ClassProperties
import EntityModel.Proofs.Linking.Names
import EntityModel.Proofs.Linking.Persistence
import EntityModel.Proofs.Loading.Fresh
import EntityModel.Proofs.Store.Reachable

/-!
# The stages of linking

Linking goes from a model as it was loaded (`Model.AsLoaded`) over the model linked by name and the
one with its aliases resolved (`expanded`) to the one with all associations resolved (`associated`)
and the last one, in which classes know their own properties.  The invariant `Sound` holds at each
of them (`sound_link`), and whatever a reference pointed to after some round over the aliases is
still the same property at the end (`keeps_link`).
-/

namespace EntityModel

open ModelFile (only)

theorem Class.mentions_of_fixed {id : FileId} {c : Class} (h : c.relabel (only id) = c) :
    ∀ r ∈ c.mentions, r.relabel (only id) = r := by
  refine fixed_of_map_eq (Eq.trans ?_ (congrArg Class.mentions h))
  refine (Class.mentions_map rfl rfl rfl rfl ?_).symm
  simp [Class.relabel, ReferenceValue.relabel, ValueField.relabel, List.flatMap_map,
    List.map_flatMap, Function.comp_def]

namespace Model

/-- The files are numbered and point nowhere. -/
structure AsLoaded (m : Model) : Prop where
  numbered : m.Numbered
  fresh : ∀ f ∈ m.files, f.Fresh

variable {m : Model}

theorem AsLoaded.lookup_open (h : m.AsLoaded) {p : Property} (hp : p ∈ m.properties)
    {cls : ClassReference} {r : PropertyReference} (hl : p.kind.lookup? = some (cls, r)) :
    r.target = none := by
  obtain ⟨f, hf, hp⟩ := exists_file_of_mem hp
  exact (Reference.of_fixed (Property.lookup?_of_fixed ((h.fresh f hf).properties p hp) hl).2).1

theorem AsLoaded.mentions_open (h : m.AsLoaded) {c : Class} (hc : c ∈ m.classes)
    {r : PropertyReference} (hr : r ∈ c.mentions) : r.target = none := by
  obtain ⟨f, hf, hc⟩ := List.mem_flatMap.mp hc
  exact (Reference.of_fixed (Class.mentions_of_fixed ((h.fresh f hf).classes c hc) r hr)).1

end Model

theorem Store.Drafted.asLoaded {s : Store} (h : s.Drafted) : s.draftModel.AsLoaded :=
  ⟨h.numbered, fun _ => h.fresh⟩

namespace Linking

variable {rules : NamingRules} {m : Model}

def expanded (rules : NamingRules) (m : Model) : AliasState :=
  resolveAliases rules (linkNames m).model

/-- The model in which all names but those of classes for their own properties are resolved. -/
def associated (rules : NamingRules) (m : Model) : Model :=
  resolveAssociations rules false (expanded rules m).model

theorem link_model (m : Model) (rules : NamingRules) :
    (m.link rules).model = resolvePropertyReferences rules (associated rules m) := rfl

/-! ### The invariant -/

theorem sound_named (rules : NamingRules) (h : m.AsLoaded) : Sound rules true (linkNames m).model :=
  sound_linkNames h.numbered fun _ hp _ _ => h.lookup_open hp

theorem sound_expanded (h : m.AsLoaded) : Sound rules true (expanded rules m).model :=
  Run.sound (run_resolveAliases (sound_named rules h)) (sound_named rules h)

theorem sound_associated (h : m.AsLoaded) : Sound rules false (associated rules m) :=
  (sound_expanded h).unsettled.resolveAssociations

/-- **In a linked model references to properties hold and aliases make no cycle.** -/
theorem sound_link (rules : NamingRules) (h : m.AsLoaded) :
    Sound rules false (m.link rules).model :=
  (sound_associated h).resolvePropertyReferences

/-! ### What classes name -/

/-- Linking by name looks up the parent of a class, its decorators and what its properties refer
to. -/
theorem exists_class_of_linkNames {c : Class} (hc : c ∈ (linkNames m).model.classes) :
    ∃ d ∈ m.classes, c
      = { d with parent := c.parent, decorators := c.decorators, properties := c.properties } := by
  obtain ⟨f, hf, hc⟩ := List.mem_flatMap.mp hc
  obtain ⟨f₁, hf₁, rfl⟩ := List.mem_map.mp hf
  obtain ⟨a, ha, rfl⟩ := List.mem_map.mp hf₁
  obtain ⟨u, hu, rfl⟩ := List.mem_map.mp ha
  obtain ⟨d, hd, rfl⟩ := List.mem_map.mp hu
  simp only [resolveReferencesOf, ModelFile.mapProperties, ModelFile.mapLists, resolveClassHeads,
    ModelFile.mapClasses, resolveDomains, List.map_map, List.mem_map] at hc
  obtain ⟨x, hx, rfl⟩ := hc
  exact ⟨x, List.mem_flatMap.mpr ⟨d, hd, hx⟩, rfl⟩

theorem mentions_linkNames {c : Class} (hc : c ∈ (linkNames m).model.classes) :
    ∃ d ∈ m.classes, c.id = d.id ∧ c.mentions = d.mentions := by
  obtain ⟨d, hd, he⟩ := exists_class_of_linkNames hc
  exact ⟨d, hd, by rw [he], by rw [he]; rfl⟩

theorem sameFrame_associated (rules : NamingRules) (h : m.AsLoaded) :
    Model.SameFrame (linkNames m).model (associated rules m) :=
  (Run.sameFrame (run_resolveAliases (sound_named rules h))).trans
    (sameFrame_associationRounds _ _ _)

theorem mentions_associated (h : m.AsLoaded) {c : Class} (hc : c ∈ (associated rules m).classes)
    {r : PropertyReference} (hr : r ∈ c.mentions) : r.target = none := by
  obtain ⟨c', hc', he⟩ := (sameFrame_associated rules h).classes hc
  obtain ⟨d, hd, -, hm⟩ := mentions_linkNames hc'
  have hmentions : c.frame.mentions = c'.frame.mentions := congrArg Class.mentions he
  exact h.mentions_open hd (hm ▸ hmentions ▸ hr)

/-- A class knows its own properties by the names that it calls them. -/
theorem goesBy_of_mentions (h : m.AsLoaded) {c : Class} (hc : c ∈ (m.link rules).model.classes)
    {r : PropertyReference} (hr : r ∈ c.mentions) {t : PropertyId} (ht : r.target = some t) :
    (m.link rules).model.GoesBy rules c.id r.text t :=
  goesBy_of_mem_mentions (fun _ hc _ hr => mentions_associated h hc hr) hc hr ht

/-! ### From a round to the end -/

def afterRounds (rules : NamingRules) (m : Model) (rounds : Nat) : AliasState :=
  aliasRounds rules rounds { model := (linkNames m).model }

theorem run_later (rounds later : Nat) : ∀ s : AliasState, Sound rules true s.model →
    Run rules (aliasRounds rules rounds s) (aliasRounds rules (rounds + later) s) := by
  induction rounds with
  | zero =>
    intro s hs
    rw [Nat.zero_add]
    exact run_aliasRounds later s hs
  | succ rounds ih =>
    intro s hs
    rw [Nat.succ_add]
    unfold aliasRounds
    simp only []
    split
    · exact .refl
    · have hs' : Sound rules true ({ s with model := resolveAssociations rules true s.model } :
        AliasState).model := hs.resolveAssociations
      exact ih _ (Run.sound (run_aliasRound rules hs' (fun p hp => (mem_pendingAliases.mp hp).1)
        (fun p hp => (mem_pendingAliases.mp hp).2.1) (nodup_pendingAliases hs'.numbered)) hs')

theorem sound_afterRounds (rules : NamingRules) (h : m.AsLoaded) (rounds : Nat) :
    Sound rules true (afterRounds rules m rounds).model :=
  Run.sound (run_aliasRounds rounds _ (sound_named rules h)) (sound_named rules h)

/-- **Later rounds keep what earlier ones found.** -/
theorem keeps_afterRounds (h : m.AsLoaded) {rounds later : Nat} (hle : rounds ≤ later) :
    Keeps rules (afterRounds rules m rounds).model (afterRounds rules m later).model := by
  obtain ⟨more, rfl⟩ := Nat.exists_eq_add_of_le hle
  exact Run.keeps (run_later rounds more _ (sound_named rules h)) (sound_afterRounds rules h rounds)

def roundLimit (m : Model) : Nat := (linkNames m).model.properties.countP isOpenAlias + 1

/-- **The end of linking keeps what every round found.** -/
theorem keeps_link (h : m.AsLoaded) {rounds : Nat} (hle : rounds ≤ roundLimit m) :
    Keeps rules (afterRounds rules m rounds).model (m.link rules).model := by
  have hassociated : Keeps rules (expanded rules m).model (associated rules m) :=
    keeps_associationRounds _ (sound_expanded h).unsettled
  have hlinked : Keeps rules (associated rules m) (m.link rules).model := by
    have hg := surrounding_resolveClassProperties ((associated rules m).findProperty rules)
    exact Keeps.mapClasses hg (Model.propertyName?_mapClasses hg _)
  exact (keeps_afterRounds h hle).trans (hassociated.trans hlinked)

end Linking

end EntityModel
