import EntityModel.Proofs.Linking.Outlines
import EntityModel.Proofs.Linking.UseCycles
import EntityModel.Proofs.Linking.Warnings

/-!
# Where problems are reported

Whatever linking reports stands in one of the files that were loaded (`covers_problems`).  Each
stage reports at places that are written in a file: at a use, an alias block, a reference, a
property, a name.  The model that a stage looks at is made of the drafts, and none of the stages
before it has changed the places.
-/

namespace EntityModel

open ModelFile (only)

def Model.Covers (m : Model) (l : Location) : Prop := ∃ f ∈ m.files, f.id = l.file

def Model.CoversAll (m : Model) (ds : List Diagnostic) : Prop := ∀ d ∈ ds, m.Covers d.location

theorem Model.CoversAll.append {m : Model} {ds es : List Diagnostic} (hd : m.CoversAll ds)
    (he : m.CoversAll es) : m.CoversAll (ds ++ es) :=
  fun x hx => (List.mem_append.mp hx).elim (hd x) (he x)

theorem Validation.mem_of_repeatedFrom {α κ : Type} [BEq κ] {key : α → κ} {x : α × α}
    (as : List α) :
    ∀ firsts, x ∈ repeatedFrom key firsts as → x.1 ∈ as := by
  induction as with
  | nil => exact fun _ h => absurd h List.not_mem_nil
  | cons a rest ih =>
    intro firsts h
    rw [repeatedFrom] at h
    cases hl : firsts.lookup (key a) with
    | none => exact List.mem_cons_of_mem _ (ih _ (by simpa only [hl] using h))
    | some first =>
      rcases List.mem_cons.mp (by simpa only [hl] using h) with rfl | h
      · exact List.mem_cons_self
      · exact List.mem_cons_of_mem _ (ih _ h)

theorem Validation.mem_of_repeated {α κ : Type} [BEq κ] {key : α → κ} {as : List α} {x : α × α}
    (h : x ∈ repeated key as) : x.1 ∈ as := mem_of_repeatedFrom as [] h

theorem Located.of_fixed {α : Type} {id : FileId} {x : Located α} (h : x.relabel (only id) = x) :
    x.location.file = id := (congrArg (fun x => x.location.file) h).symm

namespace Linking

variable {rules : NamingRules} {m : Model}

/-! ### Uses -/

theorem exists_use_of_problem (uses : List FileReference) : ∀ seen, ∀ d ∈ useProblemsFrom seen uses,
    ∃ use ∈ uses, d.location = use.location := by
  induction uses with
  | nil => exact fun _ d hd => absurd hd List.not_mem_nil
  | cons use rest ih =>
    intro seen d hd
    rcases List.mem_append.mp hd with hd | hd
    · refine ⟨use, List.mem_cons_self, ?_⟩
      split at hd
      · rw [List.mem_singleton.mp hd]
      · split at hd
        · rw [List.mem_singleton.mp hd]
        · exact absurd hd List.not_mem_nil
    · obtain ⟨u, hu, hl⟩ := ih _ d hd
      exact ⟨u, List.mem_cons_of_mem _ hu, hl⟩

theorem covers_use (h : m.AsLoaded) {f : ModelFile} (hf : f ∈ (resolveUses m).files)
    {use : FileReference} (huse : use ∈ f.uses) : m.Covers use.location := by
  obtain ⟨d, hd, rfl⟩ := List.mem_map.mp hf
  have hmem := List.mem_map_of_mem (f := fun r : FileReference => r.name) huse
  rw [show ({ d with uses := resolveUsesFrom m [] d.uses } : ModelFile).uses
    = resolveUsesFrom m [] d.uses from rfl, names_resolveUsesFrom, List.mem_map] at hmem
  obtain ⟨r, hr, hname⟩ := hmem
  refine ⟨d, hd, ?_⟩
  rw [← (Reference.of_fixed ((h.fresh d hd).uses r hr)).2, Reference.location, hname]
  rfl

theorem covers_useProblems (h : m.AsLoaded) : m.CoversAll (useProblems (resolveUses m)) := by
  intro d hd
  obtain ⟨f, hf, hd⟩ := List.mem_flatMap.mp hd
  obtain ⟨use, huse, hl⟩ := exists_use_of_problem _ _ d hd
  rw [hl]
  exact covers_use h hf huse

/-- The cycles that a search has found close with uses of files of the model. -/
def ClosedByUses (m : Model) (s : Search) : Prop := ∀ c ∈ s.cycles, ∃ f ∈ m.files, c.use ∈ f.uses

theorem ClosedByUses.followUse {visit : Search → FileId → Search}
    (hvisit : ∀ s id, ClosedByUses m s → ClosedByUses m (visit s id)) {f : ModelFile}
    (hf : f ∈ m.files)
    {use : FileReference} (huse : use ∈ f.uses) (path : List FileId) {s : Search}
    (h : ClosedByUses m s) :
    ClosedByUses m (followUse visit path s use) := by
  unfold Linking.followUse
  cases use.target with
  | none => exact h
  | some target =>
    simp only []
    split
    · intro c hc
      rcases List.mem_append.mp hc with hc | hc
      · exact h c hc
      · rw [List.mem_singleton.mp hc]
        exact ⟨f, hf, huse⟩
    · split
      · exact h
      · exact hvisit s target h

theorem ClosedByUses.visitUses (fuel : Nat) : ∀ (path : List FileId) (s : Search) (id : FileId),
    ClosedByUses m s → ClosedByUses m (visitUses m fuel path s id) := by
  induction fuel with
  | zero => exact fun _ _ _ h => h
  | succ fuel ih =>
    intro path s id h
    unfold Linking.visitUses
    cases hf : m.file? id with
    | none => exact h
    | some f =>
      have hall : ClosedByUses m (f.uses.foldl
          (Linking.followUse (Linking.visitUses m fuel (path ++ [id])) (path ++ [id])) s) :=
        List.foldlRecOn f.uses _ h fun s hs use huse =>
          hs.followUse (ih _) (Model.mem_of_file? hf).1 huse _
      exact hall

theorem closedByUses_useCycles (m : Model) : ∀ c ∈ useCycles m, ∃ f ∈ m.files, c.use ∈ f.uses := by
  have hall : ClosedByUses m (m.files.foldl (searchFrom m) {}) :=
    List.foldlRecOn m.files _ (fun c hc => absurd hc List.not_mem_nil) fun s hs f _ => by
      unfold searchFrom
      split
      · exact hs
      · exact hs.visitUses _ _ _ _
  exact hall

theorem covers_circularUses (h : m.AsLoaded) : m.CoversAll (circularUses (resolveUses m)) := by
  intro d hd
  obtain ⟨c, hc, rfl⟩ := List.mem_map.mp hd
  obtain ⟨f, hf, huse⟩ := closedByUses_useCycles _ c hc
  exact covers_use h hf huse

/-! ### Aliases of files and references by name -/

theorem covers_fileAliasProblems (h : m.AsLoaded) :
    m.CoversAll (fileAliasProblems (aliasedModel m)) := by
  intro d hd
  obtain ⟨f, hf, hd⟩ := List.mem_flatMap.mp hd
  obtain ⟨a, ha, hd⟩ := List.mem_flatMap.mp hd
  obtain ⟨u, hu, rfl⟩ := List.mem_map.mp hf
  obtain ⟨g, hg, rfl⟩ := List.mem_map.mp hu
  obtain ⟨b, hb, rfl⟩ :=
    List.mem_map.mp (show a ∈ g.aliases.map (resolveAlias (resolveUses m)) from ha)
  exact ⟨g, hg, (aliasProblems_file ((h.fresh g hg).aliases b hb) hd).symm⟩

theorem covers_named_id {n : ModelFile} (hn : n ∈ (linkNames m).model.files) :
    ∃ f ∈ m.files, f.id = n.id := by
  obtain ⟨d, hd, -, -, hid, -⟩ := exists_draft_file hn
  exact ⟨d, hd, hid.symm⟩

theorem covers_reference (h : m.AsLoaded) {n : ModelFile} (hn : n ∈ (linkNames m).model.files)
    {x : EntityReference} (hx : x ∈ fileReferences n) : m.Covers x.location := by
  obtain ⟨d, hd, hid⟩ := covers_named_id hn
  exact ⟨d, hd, hid.trans (reference_of_named {} h hn hx).1.symm⟩

/-- The references of a file are the same once it has noted its useless uses. -/
theorem exists_noted {f : ModelFile} (hf : f ∈ (namedModel m).files) :
    ∃ n ∈ (linkNames m).model.files, fileReferences n = fileReferences f :=
  ⟨_, List.mem_map_of_mem hf, fileReferences_congr rfl rfl rfl rfl⟩

theorem covers_referenceProblems (h : m.AsLoaded) :
    m.CoversAll (referenceProblems (namedModel m)) := by
  intro d hd
  obtain ⟨f, hf, hd⟩ := List.mem_flatMap.mp hd
  obtain ⟨x, hx, rfl⟩ := List.mem_map.mp hd
  obtain ⟨n, hn, hsame⟩ := exists_noted hf
  rw [EntityReference.problem_location]
  exact covers_reference h hn (hsame ▸ (List.mem_filter.mp hx).1)

theorem covers_inheritanceCycles (h : m.AsLoaded) :
    m.CoversAll (inheritanceCycles (namedModel m)) := by
  intro d hd
  obtain ⟨c, hc, hd⟩ := List.mem_filterMap.mp hd
  obtain ⟨f, hf, hc⟩ := List.mem_flatMap.mp hc
  obtain ⟨parent, hparent, hd⟩ := Option.bind_eq_some_iff.mp hd
  split at hd
  · obtain rfl := Option.some.inj hd
    obtain ⟨n, hn, hsame⟩ := exists_noted hf
    have hx : EntityReference.cls parent ∈ fileReferences n := by
      rw [hsame]
      simp only [fileReferences, classReferences, List.mem_append, List.mem_flatMap]
      refine Or.inl (Or.inr ⟨c, hc, Or.inl (Or.inl ?_)⟩)
      rw [hparent]
      exact List.mem_cons_self
    exact covers_reference h hn hx
  · simp at hd

theorem covers_linkNames (h : m.AsLoaded) : m.CoversAll (linkNames m).problems :=
  ((((covers_useProblems h).append (covers_circularUses h)).append
    (covers_fileAliasProblems h)).append (covers_referenceProblems h)).append
      (covers_inheritanceCycles h)

/-! ### Properties -/

/-- The places that an alias may be reported at stand in its file. -/
theorem reportPlaces_of_fixed {id : FileId} {p : Property} (h : p.relabel (only id) = p) :
    ∀ l ∈ reportPlaces p, l.file = id := by
  intro l hl
  rcases List.mem_cons.mp hl with rfl | hl
  · exact Property.location_of_fixed h
  obtain ⟨a, ha, hl⟩ := List.mem_flatMap.mp hl
  have hkind : p.kind = .propertyAlias a := by
    have ha := Option.mem_toList.mp ha
    unfold Property.alias? at ha
    split at ha
    · rw [← Option.some.inj ha]
      assumption
    · simp at ha
  have hfixed : a.relabel (only id) = a := by
    have hk := congrArg Property.kind h
    rw [Property.relabel, hkind, PropertyKind.relabel] at hk
    exact PropertyKind.propertyAlias.inj hk
  rcases List.mem_append.mp hl with hl | hl
  · obtain ⟨r, hr, rfl⟩ := List.mem_map.mp hl
    exact (Reference.of_fixed
      (fixed_of_omap_eq (congrArg AliasProperty.property hfixed) r (Option.mem_toList.mp hr))).2
  · obtain ⟨x, hx, rfl⟩ := List.mem_map.mp hl
    rcases List.mem_append.mp hx with hx | hx
    · exact Located.of_fixed (fixed_of_map_eq (congrArg AliasProperty.only hfixed) x hx)
    · exact Located.of_fixed (fixed_of_map_eq (congrArg AliasProperty.exclude hfixed) x hx)

theorem reportPlaces_resolveProperty (m : Model) (f : ModelFile) (p : Property) :
    reportPlaces (resolveProperty m f p) = reportPlaces p := by
  obtain ⟨id, l, k⟩ := p
  cases k <;> rfl

theorem isOpenAlias_resolveProperty (m : Model) (f : ModelFile) (p : Property) :
    isOpenAlias (resolveProperty m f p) = isOpenAlias p := by
  obtain ⟨id, l, k⟩ := p
  cases k <;> rfl

/-- Whatever the rounds over the aliases report stands in an alias of a draft, and in its file. -/
theorem exists_alias_of_problem (h : m.AsLoaded) {d : Diagnostic}
    (hd : d ∈ (expanded rules m).problems) :
    ∃ f ∈ m.files, d.file = f.id ∧
      ∃ p ∈ f.properties, isOpenAlias p = true ∧ d.location ∈ reportPlaces p := by
  obtain ⟨p, hp, ho, hreported⟩ :=
    Run.reported (run_resolveAliases (sound_named rules h)) (sound_named rules h) rfl d hd
  obtain ⟨x, hx, a, -, rfl⟩ := exists_draft_property hp
  obtain ⟨f, hf, hx⟩ := Model.exists_file_of_mem hx
  have hplace := hreported.place
  rw [reportPlaces_resolveProperty] at hplace
  rw [isOpenAlias_resolveProperty] at ho
  exact ⟨f, hf, reportPlaces_of_fixed ((h.fresh f hf).properties x hx) d.location hplace, x,
    hx, ho, hplace⟩

theorem covers_expanded (rules : NamingRules) (h : m.AsLoaded) :
    m.CoversAll (expanded rules m).problems := by
  intro d hd
  obtain ⟨f, hf, hfile, -⟩ := exists_alias_of_problem h hd
  exact ⟨f, hf, hfile.symm⟩

theorem covers_linked_id (h : m.AsLoaded) {f : ModelFile} (hf : f ∈ (m.link rules).model.files) :
    ∃ d ∈ m.files, d.id = f.id := by
  obtain ⟨d, hd, hid, -⟩ := exists_draft_of_link h hf
  exact ⟨d, hd, hid.symm⟩

theorem covers_property (h : m.AsLoaded) {p : Property} (hp : p ∈ (m.link rules).model.properties) :
    m.Covers p.location := by
  obtain ⟨f, hf, hp⟩ := Model.exists_file_of_mem hp
  obtain ⟨d, hd, hid⟩ := covers_linked_id h hf
  exact ⟨d, hd, hid.trans (property_origin h hf hp).1.symm⟩

theorem covers_associationProblems (rules : NamingRules) (h : m.AsLoaded) :
    m.CoversAll (associationProblems (associated rules m)) := by
  intro d hd
  obtain ⟨p, hp, hd⟩ := List.mem_filterMap.mp hd
  rw [← properties_link] at hp
  obtain ⟨f, hf, hp⟩ := Model.exists_file_of_mem hp
  obtain ⟨x, hopen, hd⟩ := Option.bind_eq_some_iff.mp hd
  obtain rfl := Option.some.inj hd
  obtain ⟨a, ha, hopen⟩ := Option.bind_eq_some_iff.mp hopen
  obtain ⟨r, hr, hopen⟩ := Option.bind_eq_some_iff.mp hopen
  obtain ⟨cls, -, hopen⟩ := Option.bind_eq_some_iff.mp hopen
  split at hopen
  · simp at hopen
  next hnone =>
    obtain rfl := Option.some.inj hopen
    have hlookup : p.kind.lookup? = some (a.association, r) := by
      unfold Property.association? at ha
      split at ha
      next a' hk =>
        obtain rfl := Option.some.inj ha
        simp [hk, PropertyKind.lookup?, hr]
      · simp at ha
    obtain ⟨g, hg, hid⟩ := covers_linked_id h hf
    exact ⟨g, hg, hid.trans ((property_origin h hf hp).2.1 _ _ hlookup (by simpa using hnone)).symm⟩

theorem covers_propertyReferenceProblems (rules : NamingRules) (h : m.AsLoaded) :
    m.CoversAll (propertyReferenceProblems (m.link rules).model) := by
  intro d hd
  obtain ⟨c, hc, hd⟩ := List.mem_flatMap.mp hd
  obtain ⟨f, hf, hc⟩ := List.mem_flatMap.mp hc
  obtain ⟨r, hr, hl⟩ := exists_mention_of_problem hd
  obtain ⟨g, hg, hid⟩ := covers_linked_id h hf
  exact ⟨g, hg, hid.trans (hl ▸ location_of_mention h hf hc hr).symm⟩

theorem word_of_fixed {id : FileId} {p : Property} (h : p.relabel (only id) = p)
    {word : Located String} (hw : Model.asName p = some word) : word.location.file = id := by
  have hk := congrArg Property.kind h
  obtain ⟨pid, l, k⟩ := p
  cases k with
  | association a =>
    have ha := PropertyKind.association.inj hk
    exact Located.of_fixed (fixed_of_omap_eq (congrArg AssociationProperty.asDomain ha) word hw)
  | propertyAlias a =>
    have ha := PropertyKind.propertyAlias.inj hk
    exact Located.of_fixed (fixed_of_omap_eq (congrArg AliasProperty.asDomain ha) word hw)
  | _ => simp [Model.asName] at hw

theorem covers_asDomainProblems (rules : NamingRules) (h : m.AsLoaded) :
    m.CoversAll (asDomainProblems (m.link rules).model) := by
  intro x hx
  obtain ⟨p, hp, hx⟩ := List.mem_filterMap.mp hx
  obtain ⟨word, hword, hx⟩ := Option.bind_eq_some_iff.mp hx
  obtain ⟨id, -, hx⟩ := Option.bind_eq_some_iff.mp hx
  obtain ⟨domain, -, hx⟩ := Option.bind_eq_some_iff.mp hx
  split at hx
  · simp at hx
  obtain rfl := Option.some.inj hx
  rw [properties_link] at hp
  obtain ⟨q, hq, hstem⟩ := stems_associated h p hp
  obtain ⟨d, hd, a, -, rfl⟩ := exists_draft_property hq
  obtain ⟨f, hf, hd⟩ := Model.exists_file_of_mem hd
  have hsame : Model.asName (resolveProperty (aliasedModel m) a d) = Model.asName d := by
    obtain ⟨id, l, k⟩ := d
    cases k <;> rfl
  rw [hstem.word, hsame] at hword
  exact ⟨f, hf, (word_of_fixed ((h.fresh f hf).properties d hd) hword).symm⟩

/-! ### What is wrong with the linked model -/

/-- A declaration of a kind that keeps its name has it in a file that was loaded. -/
theorem covers_named {α : Type} (decls : ModelFile → List α) (out : α → α)
    (name : α → Located String)
    (hout : ∀ f, f.outline.id = f.id ∧ decls f.outline = (decls f).map out)
    (hname : ∀ a, name (out a) = name a)
    (h : m.AsLoaded) (hown : ∀ d ∈ m.files, ∀ a ∈ decls d, (name a).relabel (only d.id) = name a)
    {x : α} (hx : x ∈ (m.link rules).model.files.flatMap decls) : m.Covers (name x).location := by
  obtain ⟨f, hf, hx⟩ := List.mem_flatMap.mp hx
  obtain ⟨d, hd, -, hall⟩ := Model.exists_of_outlines decls out hout (outlines_link rules h) hf
  obtain ⟨y, hy, he⟩ := hall x hx
  refine ⟨d, hd, ?_⟩
  rw [← hname x, ← he, hname y]
  exact (Located.of_fixed (hown d hd y hy)).symm

theorem covers_decorator (h : m.AsLoaded) {x : Decorator}
    (hx : x ∈ (m.link rules).model.decorators) :
    m.Covers x.name.location :=
  covers_named ModelFile.decorators Decorator.frame Decorator.name (fun _ => ⟨rfl, rfl⟩)
    (fun _ => rfl) h (fun d hd y hy => (congrArg Decorator.name ((h.fresh d hd).decorators y hy) :))
      hx

theorem covers_domain (h : m.AsLoaded) {x : Domain} (hx : x ∈ (m.link rules).model.domains) :
    m.Covers x.name.location :=
  covers_named ModelFile.domains Domain.outline Domain.name (fun _ => ⟨rfl, rfl⟩) (fun _ => rfl) h
    (fun d hd y hy => (congrArg Domain.name ((h.fresh d hd).domains y hy) :)) hx

theorem covers_endpoint (h : m.AsLoaded) {x : Endpoint} (hx : x ∈ (m.link rules).model.endpoints) :
    m.Covers x.name.location :=
  covers_named ModelFile.endpoints Endpoint.frame Endpoint.name (fun _ => ⟨rfl, rfl⟩)
    (fun _ => rfl) h (fun d hd y hy => (congrArg Endpoint.name ((h.fresh d hd).endpoints y hy) :))
      hx

theorem covers_className (h : m.AsLoaded) {c : Class} (hc : c ∈ (m.link rules).model.classes) :
    m.Covers c.name.location :=
  covers_named ModelFile.classes Class.outline Class.name (fun _ => ⟨rfl, rfl⟩) (fun _ => rfl) h
    (fun d hd y hy => (congrArg Class.name ((h.fresh d hd).classes y hy) :)) hc

/-- The trigram and the values of a class are written in a file that was loaded. -/
theorem covers_class (h : m.AsLoaded) {c : Class} (hc : c ∈ (m.link rules).model.classes) :
    (∀ t, c.trigram = some t → m.Covers t.location) ∧ ∀ v ∈ c.values, m.Covers v.name.location := by
  obtain ⟨f, hf, hc⟩ := List.mem_flatMap.mp hc
  obtain ⟨d, hd, -, hclasses⟩ := Model.exists_of_outlines ModelFile.classes Class.outline
    (fun _ => ⟨rfl, rfl⟩) (outlines_link rules h) hf
  obtain ⟨c', hc', he⟩ := hclasses c hc
  have hfixed := (h.fresh d hd).classes c' hc'
  refine ⟨fun t ht => ⟨d, hd, ?_⟩, fun v hv => ⟨d, hd, ?_⟩⟩
  · have htrigram : c'.trigram = c.trigram := (congrArg Class.trigram he :)
    rw [← htrigram] at ht
    exact (Located.of_fixed (fixed_of_omap_eq (congrArg Class.trigram hfixed) t ht)).symm
  · have hvalues : c'.values.map (fun v => { v with fields := [] })
        = c.values.map fun v => { v with fields := [] } := (congrArg Class.values he :)
    have hmem : ({ v with fields := [] } : ReferenceValue) ∈ c'.values.map fun v =>
      { v with fields := [] } := by
      rw [hvalues]
      exact List.mem_map_of_mem hv
    obtain ⟨v', hv', hsame⟩ := List.mem_map.mp hmem
    have hvname : v'.name = v.name := (congrArg ReferenceValue.name hsame :)
    rw [← hvname]
    exact (Located.of_fixed (congrArg ReferenceValue.name
      (fixed_of_map_eq (congrArg Class.values hfixed) v' hv') :)).symm

/-- An endpoint of the linked model has the parameters of one of its files. -/
theorem covers_parameter (h : m.AsLoaded) {e : Endpoint} (he : e ∈ (m.link rules).model.endpoints)
    {p : Property} (hp : p ∈ e.params) : m.Covers p.location := by
  obtain ⟨f, hf, he⟩ := List.mem_flatMap.mp he
  refine covers_property h (Model.properties_of_mem hf ?_)
  rw [ModelFile.properties, List.mem_append]
  exact Or.inr (List.mem_flatMap.mpr ⟨e, he, List.mem_append_left _ hp⟩)

theorem covers_association (h : m.AsLoaded) {p : Property}
    (hp : p ∈ (m.link rules).model.properties)
    {x : EntityReference} (hx : x ∈ propertyReferences p) : m.Covers x.location := by
  obtain ⟨f, hf, hp⟩ := Model.exists_file_of_mem hp
  obtain ⟨-, -, n, hn, -, d, hd, hstem⟩ := property_origin h hf hp
  exact covers_reference h hn (mem_fileReferences hd (hstem.references ▸ hx))

theorem covers_duplicates (rules : NamingRules) (h : m.AsLoaded) :
    m.CoversAll (Validation.duplicates (m.link rules).model) := by
  refine ((((?_ : m.CoversAll _).append ?_).append ?_).append ?_).append ?_
  · intro d hd
    obtain ⟨⟨c, first⟩, hc, rfl⟩ := List.mem_map.mp hd
    exact covers_className h (Validation.mem_of_repeated hc)
  · intro d hd
    obtain ⟨⟨x, first⟩, hx, rfl⟩ := List.mem_map.mp hd
    exact covers_decorator h (Validation.mem_of_repeated hx)
  · intro d hd
    obtain ⟨⟨x, first⟩, hx, rfl⟩ := List.mem_map.mp hd
    exact covers_domain h (Validation.mem_of_repeated hx)
  · intro d hd
    obtain ⟨⟨x, first⟩, hx, rfl⟩ := List.mem_map.mp hd
    exact covers_endpoint h (Validation.mem_of_repeated hx)
  · intro d hd
    obtain ⟨⟨⟨c, trigram⟩, first⟩, hc, rfl⟩ := List.mem_map.mp hd
    obtain ⟨c', hc', he⟩ := List.mem_filterMap.mp (Validation.mem_of_repeated hc)
    obtain ⟨t, ht, he⟩ := Option.map_eq_some_iff.mp he
    obtain ⟨rfl, rfl⟩ := Prod.mk.inj he
    exact (covers_class h hc').1 t ht

theorem covers_classProblems (h : m.AsLoaded) {c : Class} (hc : c ∈ (m.link rules).model.classes) :
    m.CoversAll (Validation.classProblems (m.link rules).model rules c) := by
  have hproperty : ∀ p ∈ (m.link rules).model.classProperties c.id, m.Covers p.location :=
    fun p hp =>
    covers_property h ((sound_link rules h).numbered.mem_of_classProperties hp)
  refine (((?_ : m.CoversAll _).append ?_).append ?_).append ?_
  · intro d hd
    unfold Validation.compositeKey at hd
    split at hd
    · exact absurd hd List.not_mem_nil
    split at hd
    next first second _ hkey =>
      have hsecond : second ∈ (m.link rules).model.primaryKey c.id := by simp [hkey]
      rw [List.mem_singleton.mp hd]
      exact hproperty second (List.mem_filter.mp hsecond).1
    · exact absurd hd List.not_mem_nil
  · intro d hd
    obtain ⟨⟨⟨p, name⟩, first⟩, hp, rfl⟩ := List.mem_map.mp hd
    obtain ⟨q, hq, he⟩ := List.mem_filterMap.mp (Validation.mem_of_repeated hp)
    obtain ⟨_, -, he⟩ := Option.map_eq_some_iff.mp he
    obtain ⟨rfl, -⟩ := Prod.mk.inj he
    simp only []
    split
    · exact hproperty q hq
    · exact covers_className h hc
  · intro d hd
    unfold Validation.severalBases at hd
    split at hd
    · rw [List.mem_singleton.mp hd]
      exact covers_className h hc
    · exact absurd hd List.not_mem_nil
  · intro d hd
    obtain ⟨v, hv, hd⟩ := List.mem_flatMap.mp hd
    obtain ⟨p, -, rfl⟩ := List.mem_map.mp hd
    exact (covers_class h hc).2 v hv

theorem covers_validation (rules : NamingRules) (h : m.AsLoaded) :
    m.CoversAll (Validation.problems (m.link rules).model rules) := by
  refine (((covers_duplicates rules h).append ?_).append ?_).append ?_
  · intro d hd
    obtain ⟨c, hc, hd⟩ := List.mem_flatMap.mp hd
    exact covers_classProblems h hc d hd
  · intro d hd
    obtain ⟨p, hp, hd⟩ := List.mem_filterMap.mp hd
    obtain ⟨a, ha, hd⟩ := Option.bind_eq_some_iff.mp hd
    obtain ⟨target, -, hd⟩ := Option.bind_eq_some_iff.mp hd
    split at hd
    · simp at hd
    obtain rfl := Option.some.inj hd
    have hx : EntityReference.cls a.association ∈ propertyReferences p := by
      unfold Property.association? at ha
      split at ha
      next a' hk =>
        obtain rfl := Option.some.inj ha
        rw [propertyReferences, hk]
        exact List.mem_cons_self
      · simp at ha
    exact covers_association h hp hx
  · intro d hd
    obtain ⟨e, he, hd⟩ := List.mem_flatMap.mp hd
    obtain ⟨p, hp, rfl⟩ := List.mem_map.mp hd
    exact covers_parameter h he ((List.dropWhile_sublist _).subset (List.mem_filter.mp hp).1)

theorem covers_unusedProblems (rules : NamingRules) (h : m.AsLoaded) :
    m.CoversAll (unusedProblems (m.link rules).model) := by
  intro w hw
  obtain ⟨f, hf, hw⟩ := List.mem_flatMap.mp hw
  obtain ⟨d, hd, hid⟩ := covers_linked_id h hf
  exact ⟨d, hd, hid.trans (file_unusedIn h hf hw).symm⟩

/-- **Whatever linking reports stands in a file that was loaded.** -/
theorem covers_problems (rules : NamingRules) (h : m.AsLoaded) :
    m.CoversAll (m.link rules).problems :=
  (((covers_linkNames h).append
    ((((covers_expanded rules h).append (covers_associationProblems rules h)).append
      (covers_propertyReferenceProblems rules h)).append (covers_asDomainProblems rules h))).append
    (covers_validation rules h)).append (covers_unusedProblems rules h)

end Linking

end EntityModel
