import EntityModel.Proofs.Linking.AliasOrigins
import EntityModel.Proofs.Linking.NameProblems
import EntityModel.Proofs.Loading.Fresh

/-!
# Every reference is resolved or reported

Whatever a file of the linked model refers to points to something in it, or an error of the file is
about it (`resolved_or_diagnosed`).  Uses, aliases of files and references by name are settled in
the model linked by name, from where they are followed to the end; associations, aliases of
properties and what classes name are settled in the stages after it.

There is one exception.  The rounds over aliases give up places, and where two alias properties of a
file are taken for standing at the same place, giving up one of them gives up the other without a
word.  Once there is no error, nothing was given up, and everything is resolved
(`resolved_of_no_errors`).
-/

namespace EntityModel.Linking

open ModelFile (only)

variable {rules : NamingRules} {m : Model}

/-! ### Where the files of the linked model come from -/

theorem fileReferences_congr {f g : ModelFile} (hdomains : g.domains = f.domains)
    (hdecorators : g.decorators = f.decorators) (hclasses : g.classes = f.classes)
    (hendpoints : g.endpoints = f.endpoints) : fileReferences g = fileReferences f := by
  unfold fileReferences
  rw [hdomains, hdecorators, hclasses, hendpoints]

theorem exists_draft_file {n : ModelFile} (hn : n ∈ (linkNames m).model.files) :
    ∃ d ∈ m.files, ∃ a ∈ (aliasedModel m).files, n.id = d.id ∧
      n.uses = resolveUsesFrom m [] d.uses ∧
      n.aliases = d.aliases.map (resolveAlias (resolveUses m)) ∧
      fileReferences a = fileReferences d ∧
      fileReferences n = fileReferences (resolveReferencesOf (aliasedModel m) a) ∧
      n.properties = d.properties.map (resolveProperty (aliasedModel m) a) ∧
      ∀ c ∈ n.classes, ∃ c' ∈ d.classes, c.mentions = c'.mentions := by
  obtain ⟨r, hr, rfl⟩ := List.mem_map.mp hn
  obtain ⟨a, ha, rfl⟩ := List.mem_map.mp hr
  obtain ⟨u, hu, rfl⟩ := List.mem_map.mp ha
  obtain ⟨d, hd, rfl⟩ := List.mem_map.mp hu
  refine ⟨d, hd, _, ha, rfl, rfl, rfl, fileReferences_congr rfl rfl rfl rfl,
    fileReferences_congr rfl rfl rfl rfl, properties_resolveReferencesOf _ _, fun c hc => ?_⟩
  simp only [resolveReferencesOf, ModelFile.mapProperties, ModelFile.mapLists, resolveClassHeads,
    ModelFile.mapClasses, resolveDomains, List.map_map, List.mem_map] at hc
  obtain ⟨x, hx, rfl⟩ := hc
  exact ⟨x, hx, rfl⟩

/-- What a file owes to one of the same frame. -/
structure HeadFrom (f n : ModelFile) : Prop where
  id : f.id = n.id
  uses : f.uses = n.uses
  uselessImports : f.uselessImports = n.uselessImports
  aliases : f.aliases = n.aliases
  domains : f.domains = n.domains
  classes : ∀ c ∈ f.classes, ∃ c' ∈ n.classes, c.parent = c'.parent ∧ c.decorators = c'.decorators ∧
    ∀ r ∈ c.mentions, ∃ r' ∈ c'.mentions, r.location = r'.location

theorem headFrom_resolveClassProperties {s n : ModelFile} (h : s.frame = n.frame)
    (find : ClassId → String → Option PropertyId) :
    HeadFrom (s.mapClasses fun c => resolveClassProperties (find c.id) c) n where
  id := show s.frame.id = n.frame.id from congrArg ModelFile.id h
  uses := show s.frame.uses = n.frame.uses from congrArg ModelFile.uses h
  uselessImports :=
    show s.frame.uselessImports = n.frame.uselessImports from congrArg ModelFile.uselessImports h
  aliases := show s.frame.aliases = n.frame.aliases from congrArg ModelFile.aliases h
  domains := show s.frame.domains = n.frame.domains from congrArg ModelFile.domains h
  classes c hc := by
    obtain ⟨c₁, hc₁, rfl⟩ := List.mem_map.mp hc
    obtain ⟨c', hc', he⟩ := Model.exists_class_of_frame h hc₁
    refine ⟨c', hc', show c₁.frame.parent = c'.frame.parent from congrArg Class.parent he,
      show c₁.frame.decorators = c'.frame.decorators from congrArg Class.decorators he,
      fun r hr => ?_⟩
    rw [mentions_resolveClassProperties, List.mem_map] at hr
    obtain ⟨r, hr, rfl⟩ := hr
    have hmentions : c₁.frame.mentions = c'.frame.mentions := congrArg Class.mentions he
    exact ⟨r, hmentions ▸ hr, resolveBy_location _ _⟩

theorem headFrom_resolvePropertyReferences {m m' : Model} (h : Model.SameFrame m m') {f : ModelFile}
    (hf : f ∈ (resolvePropertyReferences rules m').files) : ∃ n ∈ m.files, HeadFrom f n := by
  obtain ⟨s, hs, rfl⟩ := List.mem_map.mp hf
  obtain ⟨n, hn, he⟩ := h.files hs
  exact ⟨n, hn, headFrom_resolveClassProperties he _⟩

/-- What a file of the linked model owes to the model linked by name. -/
theorem exists_named_file (h : m.AsLoaded) {f : ModelFile} (hf : f ∈ (m.link rules).model.files) :
    ∃ n ∈ (linkNames m).model.files, HeadFrom f n :=
  headFrom_resolvePropertyReferences (sameFrame_associated rules h) hf

theorem sameDeclared_resolveUses (m : Model) : Model.SameDeclared m (resolveUses m) :=
  Model.sameDeclared_mapFiles fun _ _ => rfl

theorem sameDeclared_linkNames (m : Model) :
    Model.SameDeclared (aliasedModel m) (linkNames m).model :=
  (Model.sameDeclared_mapFiles fun f _ =>
    ModelFile.declared_of_shape (shape_resolveReferencesOf (aliasedModel m) f)).trans
    (Model.sameDeclared_mapFiles fun _ _ => rfl)

theorem sameDeclared_aliasedModel (m : Model) :
    Model.SameDeclared (resolveUses m) (aliasedModel m) :=
  Model.sameDeclared_mapFiles fun _ _ => rfl

/-- Files and declarations that are there before the properties are linked are there in the end. -/
theorem sameDeclared_link (rules : NamingRules) (h : m.AsLoaded) :
    Model.SameDeclared (aliasedModel m) (m.link rules).model :=
  ((sameDeclared_linkNames m).trans (sameFrame_associated rules h).sameDeclared).trans
    (Model.sameDeclared_mapClasses (surrounding_resolveClassProperties _) _)

/-! ### What is reported -/

/-- What the stages that look up names report, and what the others do. -/
theorem link_problems (m : Model) (rules : NamingRules) :
    (m.link rules).problems
      = (useProblems (resolveUses m) ++ circularUses (resolveUses m)
        ++ fileAliasProblems (aliasedModel m)
          ++ referenceProblems (namedModel m) ++ inheritanceCycles (namedModel m))
        ++ ((expanded rules m).problems ++ associationProblems (associated rules m)
          ++ propertyReferenceProblems (m.link rules).model
            ++ asDomainProblems (m.link rules).model)
        ++ Validation.problems (m.link rules).model rules ++ unusedProblems (m.link rules).model :=
      rfl

theorem open_of_draft {d : ModelFile} (hd : d.Fresh) {x : EntityReference}
    (hx : x ∈ fileReferences d) :
    x.target = none := by
  have hfixed := hd.references x hx
  cases x with
  | cls r | decorator r | domain r =>
    have := (Reference.of_fixed (r := r) (by simpa [EntityReference.relabel] using hfixed)).1
    simp [EntityReference.target, this]

/-- A reference that was looked up by name is resolved in the end, or looking up names reports
it. -/
theorem resolved_or_missed (rules : NamingRules) (h : m.AsLoaded) {n : ModelFile}
    (hn : n ∈ (linkNames m).model.files) {x : EntityReference} (hx : x ∈ fileReferences n) :
    (∃ e, x.target = some e ∧ e.Live (m.link rules).model) ∨
      ∃ d ∈ referenceProblems (namedModel m), d.isError = true ∧ d.location = x.location := by
  obtain ⟨d, hd, a, ha, -, -, -, hsame, hrefs, -, -⟩ := exists_draft_file hn
  rw [hrefs] at hx
  rcases resolved_or_reference_problem (numbered_aliasedModel h.numbered) ha
    (fun x₀ hx₀ => open_of_draft (h.fresh d hd) (hsame ▸ hx₀)) x hx with ⟨e, he, hlive⟩ | hmissed
  · refine Or.inl ⟨e, he, (sameDeclared_link rules h).live hlive fun id hprop => ?_⟩
    cases x with
    | cls r | decorator r | domain r =>
      obtain ⟨t, _, rfl⟩ := Option.map_eq_some_iff.mp he
      exact absurd hprop (by simp)
  · exact Or.inr hmissed

/-- A reference that was looked up by name is resolved in the end, or it is reported in its file. -/
theorem reference_of_named (rules : NamingRules) (h : m.AsLoaded) {n : ModelFile}
    (hn : n ∈ (linkNames m).model.files) {x : EntityReference} (hx : x ∈ fileReferences n) :
    x.location.file = n.id ∧ ((∃ e, x.target = some e ∧ e.Live (m.link rules).model) ∨
      ∃ d ∈ (m.link rules).problems, d.isError = true ∧ d.location = x.location) := by
  refine ⟨?_, (resolved_or_missed rules h hn hx).imp_right ?_⟩
  · obtain ⟨d, hd, a, ha, hid, -, -, hsame, hrefs, -, -⟩ := exists_draft_file hn
    rw [hrefs] at hx
    obtain ⟨x₀, hx₀, he⟩ := locations_resolveReferencesOf _ _ x hx
    have hfixed := (h.fresh d hd).references x₀ (hsame ▸ hx₀)
    rw [he, hid]
    cases x₀ with
    | cls r | decorator r | domain r =>
      exact (Reference.of_fixed (by simpa [EntityReference.relabel] using hfixed)).2
  · rintro ⟨p, hp, he⟩
    refine ⟨p, ?_, he⟩
    rw [link_problems]
    simp [hp]

/-! ### Uses and aliases of files -/

theorem use_accounted (h : m.AsLoaded) {f : ModelFile} (hf : f ∈ (m.link rules).model.files)
    {r : FileReference} (hr : r ∈ f.uses) :
    (r.held .use .file).Resolved (m.link rules).model ∨
      (r.held .use .file).Diagnosed f.id (m.link rules).problems := by
  obtain ⟨n, hn, hhead⟩ := exists_named_file h hf
  obtain ⟨d, hd, -, -, hid, huses, -⟩ := exists_draft_file hn
  rw [hhead.uses, huses] at hr
  have hfresh := (h.fresh d hd).uses
  rcases resolved_or_use_problem m d.uses [] (fun r hr => (Reference.of_fixed (hfresh r hr)).1) r hr
    with ⟨id, ht, hlive⟩ | ⟨p, hp, herror, hl⟩
  · have hsame := ((sameDeclared_resolveUses m).trans (sameDeclared_aliasedModel m)).trans
      (sameDeclared_link rules h)
    exact Or.inl ⟨.file id, by simp [Reference.held, ht], hsame.live hlive (by simp)⟩
  · refine Or.inr ⟨p, ?_, herror, ?_, Or.inl hl⟩
    · have hmem : p ∈ useProblems (resolveUses m) :=
        List.mem_flatMap.mpr ⟨_, List.mem_map_of_mem hd, hp⟩
      rw [link_problems]
      simp [hmem]
    · have hname := List.mem_map_of_mem (f := fun r : FileReference => r.name) hr
      rw [names_resolveUsesFrom, List.mem_map] at hname
      obtain ⟨r₀, hr₀, he⟩ := hname
      have hloc : r.location = r₀.location := congrArg Located.location he.symm
      rw [Diagnostic.file, hl, hloc, hhead.id, hid]
      exact (Reference.of_fixed (hfresh r₀ hr₀)).2

theorem aliasOpen_of_fixed {id : FileId} {a : Alias} (h : a.relabel (only id) = a) :
    AliasOpen a where
  file := (Reference.of_fixed (congrArg Alias.file h)).1
  classes r hr := (Reference.of_fixed (fixed_of_lists_eq (congrArg Alias.classes h) r hr)).1
  endpoints r hr := (Reference.of_fixed (fixed_of_lists_eq (congrArg Alias.endpoints h) r hr)).1

theorem aliasProblems_file {id : FileId} {a : Alias} (h : a.relabel (only id) = a) {p : Diagnostic}
    (hp : p ∈ aliasProblems (resolveAlias m a)) : p.file = id := by
  have hclasses : ∀ r ∈ a.classes.getD [], r.location.file = id := fun r hr =>
    (Reference.of_fixed (fixed_of_lists_eq (congrArg Alias.classes h) r hr)).2
  have hendpoints : ∀ r ∈ a.endpoints.getD [], r.location.file = id := fun r hr =>
    (Reference.of_fixed (fixed_of_lists_eq (congrArg Alias.endpoints h) r hr)).2
  unfold resolveAlias at hp
  split at hp
  · unfold aliasProblems at hp
    split at hp
    · rw [List.mem_singleton.mp hp]
      exact (Reference.of_fixed (congrArg Alias.file h)).2
    · simp only [List.mem_append, List.mem_map, List.mem_filter] at hp
      rcases hp with ⟨r, ⟨hr, _⟩, rfl⟩ | ⟨r, ⟨hr, _⟩, rfl⟩
      · exact hclasses r hr
      · exact hendpoints r hr
  · simp only [aliasProblems, Reference.resolve, getD_map, List.mem_append, List.mem_map,
      List.mem_filter] at hp
    rcases hp with ⟨r, ⟨⟨r₀, hr₀, rfl⟩, _⟩, rfl⟩ | ⟨r, ⟨⟨r₀, hr₀, rfl⟩, _⟩, rfl⟩
    · exact (congrArg Location.file (resolveBy_location _ r₀)).trans (hclasses r₀ hr₀)
    · exact (congrArg Location.file (resolveBy_location _ r₀)).trans (hendpoints r₀ hr₀)

theorem alias_accounted (h : m.AsLoaded) {f : ModelFile}
    (hf : f ∈ (m.link rules).model.files) {a : Alias}
    (ha : a ∈ f.aliases) {x : HeldReference} (hx : x ∈ a.heldReferences) :
    x.Resolved (m.link rules).model ∨ x.Diagnosed f.id (m.link rules).problems := by
  obtain ⟨n, hn, hhead⟩ := exists_named_file h hf
  obtain ⟨d, hd, -, -, hid, -, haliases, -⟩ := exists_draft_file hn
  rw [hhead.aliases, haliases, List.mem_map] at ha
  obtain ⟨a, ha, rfl⟩ := ha
  have hfixed := (h.fresh d hd).aliases a ha
  rcases resolved_or_alias_problem (resolveUses m) (aliasOpen_of_fixed hfixed) x hx with
    ⟨e, he, hlive⟩ | ⟨p, hp, herror, hl⟩
  · refine Or.inl ⟨e, he,
      ((sameDeclared_aliasedModel m).trans (sameDeclared_link rules h)).live hlive ?_⟩
    simp only [Alias.heldReferences, List.cons_append, List.mem_cons, List.mem_append,
      List.mem_map] at hx
    rintro id rfl
    rcases hx with rfl | ⟨r, _, rfl⟩ | ⟨r, _, rfl⟩ <;> simp [Reference.held] at he
  · refine Or.inr ⟨p, ?_, herror, ?_, hl⟩
    · have hmem : p ∈ fileAliasProblems (aliasedModel m) := by
        refine List.mem_flatMap.mpr ⟨_, List.mem_map_of_mem (List.mem_map_of_mem hd), ?_⟩
        exact List.mem_flatMap.mpr ⟨_, List.mem_map_of_mem ha, hp⟩
      rw [link_problems]
      simp [hmem]
    · rw [hhead.id, hid]
      exact aliasProblems_file hfixed hp

/-! ### Properties -/

theorem properties_link (m : Model) (rules : NamingRules) :
    (m.link rules).model.properties = (associated rules m).properties := by
  rw [link_model, resolvePropertyReferences_eq]
  exact Model.properties_mapClasses (surrounding_resolveClassProperties _) _

theorem stems_associated (h : m.AsLoaded) : Stems (linkNames m).model (associated rules m) :=
  (Run.stems (run_resolveAliases (sound_named rules h)) (sound_named rules h)).trans
    (stems_associationRounds _ _ _ _)

/-- What a property of the linked model owes to one of the model linked by name: it stems from a
property of the same file, and what it still looks for is written there. -/
theorem property_origin (h : m.AsLoaded) {f : ModelFile} (hf : f ∈ (m.link rules).model.files)
    {p : Property} (hp : p ∈ f.properties) :
    p.location.file = f.id ∧
      (∀ cls r, p.kind.lookup? = some (cls, r) → r.target = none → r.location.file = f.id) ∧
      ∃ n ∈ (linkNames m).model.files, n.id = f.id ∧ ∃ d ∈ n.properties, Stem d p := by
  have hmem := Model.properties_of_mem hf hp
  rw [properties_link] at hmem
  obtain ⟨d, hd, hstem⟩ := stems_associated h p hmem
  obtain ⟨n, hn, hd⟩ := Model.exists_file_of_mem hd
  have hown := ((Model.numbered_iff.mp (numbered_linkNames h.numbered)).2 n hn).owner_file hd
  have hown' := ((Model.numbered_iff.mp (sound_link rules h).numbered).2 f hf).owner_file hp
  have hid : n.id = f.id := by rw [← hown, ← hown', hstem.owner]
  obtain ⟨g, hg, a, -, hgid, -, -, -, -, hprops, -⟩ := exists_draft_file hn
  have hd' := hd
  rw [hprops, List.mem_map] at hd'
  obtain ⟨d₀, hd₀, rfl⟩ := hd'
  have hfixed := (h.fresh g hg).properties d₀ hd₀
  refine ⟨?_, fun cls r hl ho => ?_, n, hn, hid, _, hd, hstem⟩
  · rw [hstem.location, ← hid, hgid]
    exact Property.location_of_fixed (p := d₀) hfixed
  · rw [hstem.unresolved cls r hl ho] at hl
    obtain ⟨c', hl⟩ := lookup?_resolveKind hl
    rw [← hid, hgid]
    exact (Reference.of_fixed (Property.lookup?_of_fixed hfixed hl).2).2

/-- The reference to a class, decorator or domain as one that the file holds. -/
theorem mem_fileReferences {f : ModelFile} {p : Property} (hp : p ∈ f.properties)
    {x : EntityReference} (hx : x ∈ propertyReferences p) : x ∈ fileReferences f := by
  simp only [ModelFile.properties, List.mem_append, List.mem_flatMap] at hp
  simp only [fileReferences, classReferences, List.mem_append, List.mem_flatMap]
  rcases hp with (⟨c, hc, hp⟩ | ⟨d, hd, hp⟩) | ⟨e, he, hp⟩
  · exact Or.inl (Or.inr ⟨c, hc, Or.inr ⟨p, hp, hx⟩⟩)
  · exact Or.inl (Or.inl (Or.inr ⟨d, hd, p, hp, hx⟩))
  · exact Or.inr ⟨e, he, p, hp, hx⟩

theorem mem_propertyReferences_of_lookup {p : Property} {cls : ClassReference}
    {r : PropertyReference}
    (hl : p.kind.lookup? = some (cls, r)) : EntityReference.cls cls ∈ propertyReferences p := by
  obtain ⟨id, l, k⟩ := p
  cases k with
  | association a | propertyAlias a =>
    obtain ⟨_, _, he⟩ := Option.map_eq_some_iff.mp hl
    obtain ⟨rfl, _⟩ := Prod.mk.inj he
    exact List.mem_singleton_self _
  | _ => simp [PropertyKind.lookup?] at hl

/-- What a property holds: references by name, and the one to a property that is looked up on a
class. -/
theorem heldReferences_cases {p : Property} {x : HeldReference} (hx : x ∈ p.heldReferences) :
    x.enclosing = some p.location ∧
      ((∃ y ∈ propertyReferences p, x.target = y.target ∧ x.location = y.location) ∨
        ∃ cls r, p.kind.lookup? = some (cls, r) ∧ x.target = r.target.map .property ∧
          x.location = r.location ∧ x.through = some cls.location ∧
          (p.alias?.isSome = true → x.kind = .aliasProperty)) := by
  obtain ⟨id, l, k⟩ := p
  obtain ⟨y, hy, rfl⟩ := List.mem_map.mp hx
  refine ⟨rfl, ?_⟩
  cases k with
  | regular a =>
    obtain rfl := List.mem_singleton.mp hy
    exact Or.inl ⟨.domain a.domain, List.mem_singleton_self _, rfl, rfl⟩
  | composition a =>
    rcases List.mem_cons.mp hy with rfl | hy
    · exact Or.inl ⟨.cls a.composition, List.mem_cons_self, rfl, rfl⟩
    · obtain ⟨r, hr, rfl⟩ := List.mem_map.mp hy
      exact Or.inl ⟨.domain r, List.mem_cons_of_mem _ (List.mem_map_of_mem hr), rfl, rfl⟩
  | association a =>
    rcases List.mem_cons.mp hy with rfl | hy
    · exact Or.inl ⟨.cls a.association, List.mem_singleton_self _, rfl, rfl⟩
    · obtain ⟨r, hr, rfl⟩ := List.mem_map.mp hy
      have hr : a.property = some r := Option.mem_toList.mp hr
      exact Or.inr ⟨a.association, r, by simp [PropertyKind.lookup?, hr], rfl, rfl, rfl,
        by simp [Property.alias?]⟩
  | propertyAlias a =>
    rcases List.mem_cons.mp hy with rfl | hy
    · exact Or.inl ⟨.cls a.cls, List.mem_singleton_self _, rfl, rfl⟩
    · obtain ⟨r, hr, rfl⟩ := List.mem_map.mp hy
      have hr : a.property = some r := Option.mem_toList.mp hr
      exact Or.inr ⟨a.cls, r, by simp [PropertyKind.lookup?, hr], rfl, rfl, rfl, fun _ => rfl⟩

/-- What a property refers to by name is resolved in the end, or it is reported in its file. -/
theorem reference_of_property (h : m.AsLoaded) {f : ModelFile} (hf : f ∈ (m.link rules).model.files)
    {p : Property} (hp : p ∈ f.properties) {x : EntityReference} (hx : x ∈ propertyReferences p) :
    (∃ e, x.target = some e ∧ e.Live (m.link rules).model) ∨
      ∃ d ∈ (m.link rules).problems, d.isError = true ∧ d.file = f.id ∧
      d.location = x.location := by
  obtain ⟨-, -, n, hn, hid, d, hd, hstem⟩ := property_origin h hf hp
  rw [hstem.references] at hx
  obtain ⟨hfile, hlive | ⟨q, hq, herror, hl⟩⟩ :=
    reference_of_named rules h hn (mem_fileReferences hd hx)
  · exact Or.inl hlive
  · exact Or.inr ⟨q, hq, herror, by rw [Diagnostic.file, hl, hfile, hid], hl⟩

/-- Two alias properties of the model are taken for standing at the place. -/
def SharedPlace (m : Model) (l : Location) : Prop :=
  ∃ a ∈ m.properties, ∃ b ∈ m.properties, a.id ≠ b.id ∧ a.alias?.isSome = true ∧
    b.alias?.isSome = true ∧ a.location = l ∧ b.location = l

theorem isSome_alias?_of_open {p : Property} (h : isOpenAlias p = true) :
    p.alias?.isSome = true := by
  obtain ⟨a, hk, -⟩ := isOpenAlias_iff.mp h
  simp [Property.alias?, hk]

theorem alias?_resolveProperty (m : Model) (f : ModelFile) (p : Property) :
    (resolveProperty m f p).alias?.isSome = p.alias?.isSome := by
  obtain ⟨id, l, k⟩ := p
  cases k <;> rfl

/-- An alias that is open in the end is excused, or its place is shared. -/
theorem excused_or_shared (h : m.AsLoaded) {p : Property} (hp : p ∈ (m.link rules).model.properties)
    (ho : isOpenAlias p = true) :
    Excused (expanded rules m).problems p ∨ SharedPlace m p.location := by
  rw [properties_link] at hp
  have hmem := mem_of_alias rules false _ _ (isSome_alias?_of_open ho) hp
  rcases excused_of_open (sound_named rules h) hmem ho with hexc |
    ⟨d, hd, d', hd', hne, hstem, ho', hl⟩
  · exact Or.inl hexc
  · obtain ⟨x, hx, a, -, rfl⟩ := exists_draft_property hd
    obtain ⟨y, hy, b, -, rfl⟩ := exists_draft_property hd'
    refine Or.inr ⟨x, hx, y, hy, hne, ?_, ?_, hstem.location.symm, hl⟩
    · rw [← alias?_resolveProperty]
      exact isSome_alias?_of_open (hstem.isOpenAlias ho)
    · rw [← alias?_resolveProperty]
      exact isSome_alias?_of_open ho'

/-- A reference to a property that is resolved points to a property of the model. -/
theorem live_of_target (h : m.AsLoaded) {p : Property} (hp : p ∈ (m.link rules).model.properties)
    {cls : ClassReference} {r : PropertyReference} (hl : p.kind.lookup? = some (cls, r))
    {t : PropertyId} (ht : r.target = some t) : (Entity.property t).Live (m.link rules).model := by
  have hsound := sound_link rules h
  obtain ⟨C, -, -, q, hq, hid, -⟩ := hsound.grounded p hp cls r hl t ht
  exact ⟨q, hsound.numbered.mem_of_classProperties hq, hid⟩

/-- **A reference to a property that is open in the end is reported in its file**: at its own place,
at that of the class it is looked up on, or at its property, unless two aliases share that place. -/
theorem lookup_reported (h : m.AsLoaded) {f : ModelFile} (hf : f ∈ (m.link rules).model.files)
    {p : Property} (hp : p ∈ f.properties) {cls : ClassReference} {r : PropertyReference}
    (hl : p.kind.lookup? = some (cls, r)) (ht : r.target = none) :
    (∃ d ∈ (m.link rules).problems, d.isError = true ∧ d.file = f.id ∧
      (d.location = r.location ∨ d.location = cls.location ∨ d.location = p.location)) ∨
    isOpenAlias p = true ∧ SharedPlace m p.location := by
  have hmem := Model.properties_of_mem hf hp
  obtain ⟨hplace, hwritten, -⟩ := property_origin h hf hp
  cases hC : cls.target with
  | none =>
    -- the class is not known, and that is reported
    rcases reference_of_property h hf hp (mem_propertyReferences_of_lookup hl) with
      ⟨e, he, -⟩ | ⟨d, hd, herror, hfile, hat⟩
    · simp [EntityReference.target, hC] at he
    · exact Or.inl ⟨d, hd, herror, hfile, Or.inr (Or.inl hat)⟩
  | some C =>
    cases hk : p.kind with
    | association a =>
      obtain ⟨rfl, hr⟩ : a.association = cls ∧ a.property = some r := by
        simpa [hk, PropertyKind.lookup?, and_comm] using hl
      have hopen : openTarget p = some (C, r) := openTarget_eq_some.mpr ⟨a, hk, hr, hC, ht⟩
      rw [properties_link] at hmem
      refine Or.inl ⟨{ problem := .propertyNotFound r.text (className (associated rules m) C)
                       location := r.location }, ?_, rfl, hwritten _ r hl ht, Or.inl rfl⟩
      rw [link_problems]
      refine List.mem_append_left _ (List.mem_append_left _ (List.mem_append_right _
        (List.mem_append_left _ (List.mem_append_left _ (List.mem_append_right _ ?_)))))
      exact List.mem_filterMap.mpr ⟨p, hmem, by simp [hopen]⟩
    | propertyAlias a =>
      obtain ⟨rfl, hr⟩ : a.cls = cls ∧ a.property = some r := by
        simpa [hk, PropertyKind.lookup?, and_comm] using hl
      have hopen : isOpenAlias p = true := isOpenAlias_iff.mpr ⟨a, hk, by simp [hr, ht]⟩
      rcases excused_or_shared h hmem hopen with (⟨a', hk', hnone⟩ | ⟨d, hd, herror, hat⟩) | hshared
      · obtain rfl := PropertyKind.propertyAlias.inj (hk.symm.trans hk')
        exact absurd (hC.symm.trans hnone) (by simp)
      · have hd' : d ∈ (m.link rules).problems := by
          rw [link_problems]
          simp [hd]
        rcases hat with hat | ⟨a', r', hk', hr', hat⟩
        · exact Or.inl ⟨d, hd', herror, by rw [Diagnostic.file, hat, hplace], Or.inr (Or.inr hat)⟩
        · obtain rfl := PropertyKind.propertyAlias.inj (hk.symm.trans hk')
          obtain rfl : r' = r := Option.some.inj (hr'.symm.trans hr)
          exact Or.inl ⟨d, hd', herror, by
            rw [Diagnostic.file, hat, hwritten _ r' hl ht], Or.inl hat⟩
      · exact Or.inr ⟨hopen, hshared⟩
    | _ => simp [hk, PropertyKind.lookup?] at hl

/-- **Whatever a property refers to is resolved, or reported in its file**, places that two aliases
share apart. -/
theorem property_accounted (h : m.AsLoaded) {f : ModelFile} (hf : f ∈ (m.link rules).model.files)
    {p : Property} (hp : p ∈ f.properties) {x : HeldReference} (hx : x ∈ p.heldReferences) :
    x.Resolved (m.link rules).model ∨ x.Diagnosed f.id (m.link rules).problems ∨
      x.kind = .aliasProperty ∧ isOpenAlias p = true ∧ x.enclosing = some p.location ∧
        SharedPlace m p.location := by
  obtain ⟨henclosing, ⟨y, hy, htarget, hat⟩ | ⟨cls, r, hl, htarget, hat, hthrough, hkind⟩⟩ :=
    heldReferences_cases hx
  · rcases reference_of_property h hf hp hy with ⟨e, he, hlive⟩ | ⟨d, hd, herror, hfile, hd'⟩
    · exact Or.inl ⟨e, htarget.trans he, hlive⟩
    · exact Or.inr (Or.inl ⟨d, hd, herror, hfile, Or.inl (hd'.trans hat.symm)⟩)
  cases ht : r.target with
  | some t =>
    have hlive := live_of_target h (Model.properties_of_mem hf hp) hl ht
    exact Or.inl ⟨.property t, by rw [htarget, ht]; rfl, hlive⟩
  | none =>
    rcases lookup_reported h hf hp hl ht with ⟨d, hd, herror, hfile, hd'⟩ | ⟨hopen, hshared⟩
    · refine Or.inr (Or.inl ⟨d, hd, herror, hfile, ?_⟩)
      rcases hd' with hd' | hd' | hd'
      · exact Or.inl (hd'.trans hat.symm)
      · exact Or.inr (Or.inl (hthrough.trans (congrArg some hd'.symm)))
      · exact Or.inr (Or.inr (henclosing.trans (congrArg some hd'.symm)))
    · exact Or.inr (Or.inr ⟨hkind (isSome_alias?_of_open hopen), hopen, henclosing, hshared⟩)

/-! ### Domains and classes -/

theorem domain_accounted (h : m.AsLoaded) {f : ModelFile} (hf : f ∈ (m.link rules).model.files)
    {d : Domain} (hd : d ∈ f.domains) {x : HeldReference} (hx : x ∈ d.heldReferences) :
    x.Resolved (m.link rules).model ∨ x.Diagnosed f.id (m.link rules).problems := by
  obtain ⟨n, hn, hhead⟩ := exists_named_file h hf
  obtain ⟨⟨word, r⟩, hr, rfl⟩ := List.mem_map.mp hx
  have hy : EntityReference.domain r ∈ fileReferences n := by
    rw [hhead.domains] at hd
    simp only [fileReferences, List.mem_append, List.mem_flatMap, List.mem_map]
    exact Or.inl (Or.inl (Or.inl ⟨d, hd, (word, r), hr, rfl⟩))
  obtain ⟨hfile, ⟨e, he, hlive⟩ | ⟨q, hq, herror, hl⟩⟩ := reference_of_named rules h hn hy
  · exact Or.inl ⟨e, he, hlive⟩
  · exact Or.inr ⟨q, hq, herror, by rw [Diagnostic.file, hl, hfile, hhead.id], Or.inl hl⟩

/-- What a class holds: references by name, and those to its own properties. -/
theorem classReferences_cases {c : Class} {x : HeldReference} (hx : x ∈ c.heldReferences) :
    (∃ y ∈ c.parent.toList.map EntityReference.cls
        ++ c.decorators.map (fun u => .decorator u.decorator),
      x.target = y.target ∧ x.location = y.location) ∨
    ∃ r ∈ c.mentions, x.target = r.target.map .property ∧ x.location = r.location := by
  simp only [Class.heldReferences, List.mem_append, List.mem_map, Option.mem_toList,
    List.mem_flatMap] at hx
  simp only [Class.mentions, List.mem_append, List.mem_map, Option.mem_toList, List.mem_filterMap,
    List.mem_flatMap]
  rcases hx with (((⟨r, hr, rfl⟩ | ⟨u, hu, rfl⟩) | ⟨r, hr, rfl⟩) | ⟨v, hv, fd, hfd, rfl⟩) |
    ⟨o, ho, r, hr, rfl⟩
  · exact Or.inl ⟨.cls r, Or.inl ⟨r, hr, rfl⟩, rfl, rfl⟩
  · exact Or.inl ⟨.decorator u.decorator, Or.inr ⟨u, hu, rfl⟩, rfl, rfl⟩
  · exact Or.inr ⟨r, Or.inl (Or.inr hr), rfl, rfl⟩
  · exact Or.inr ⟨fd.property, Or.inr ⟨v, hv, fd, hfd, rfl⟩, rfl, rfl⟩
  · exact Or.inr ⟨r, Or.inl (Or.inl ⟨o, ho, hr⟩), rfl, rfl⟩

theorem exists_classPropertyProblem {c : Class} {r : PropertyReference} (hr : r ∈ c.mentions)
    (ho : r.target = none) :
    ∃ d ∈ classPropertyProblems c, d.isError = true ∧ d.location = r.location := by
  have hopen : isOpen r = true := by simp [isOpen, ho]
  simp only [Class.mentions, List.mem_append] at hr
  rcases hr with (hr | hr) | hr
  · exact ⟨propertyMissing c r, List.mem_append_left _ (List.mem_append_left _
      (List.mem_map_of_mem (List.mem_filter.mpr ⟨hr, hopen⟩))), rfl, rfl⟩
  · exact ⟨uniqueKeyMissing c r, List.mem_append_left _ (List.mem_append_right _
      (List.mem_map_of_mem (List.mem_filter.mpr ⟨hr, hopen⟩))), rfl, rfl⟩
  · exact ⟨propertyMissing c r, List.mem_append_right _
      (List.mem_map_of_mem (List.mem_filter.mpr ⟨hr, hopen⟩)), rfl, rfl⟩

/-- What is reported about what a class names is reported at the name. -/
theorem exists_mention_of_problem {c : Class} {d : Diagnostic} (hd : d ∈ classPropertyProblems c) :
    ∃ r ∈ c.mentions, d.location = r.location := by
  simp only [classPropertyProblems, List.mem_append, List.mem_map, List.mem_filter] at hd
  rcases hd with (⟨r, ⟨hr, -⟩, rfl⟩ | ⟨r, ⟨hr, -⟩, rfl⟩) | ⟨r, ⟨hr, -⟩, rfl⟩
  · exact ⟨r, List.mem_append_left _ (List.mem_append_left _ hr), rfl⟩
  · exact ⟨r, List.mem_append_left _ (List.mem_append_right _ hr), rfl⟩
  · exact ⟨r, List.mem_append_right _ hr, rfl⟩

theorem location_of_mention (h : m.AsLoaded) {f : ModelFile} (hf : f ∈ (m.link rules).model.files)
    {c : Class} (hc : c ∈ f.classes) {r : PropertyReference} (hr : r ∈ c.mentions) :
    r.location.file = f.id := by
  obtain ⟨n, hn, hhead⟩ := exists_named_file h hf
  obtain ⟨c', hc', -, -, hmentions⟩ := hhead.classes c hc
  obtain ⟨r', hr', he⟩ := hmentions r hr
  obtain ⟨g, hg, -, -, hgid, -, -, -, -, -, hwritten⟩ := exists_draft_file hn
  obtain ⟨c₀, hc₀, hm⟩ := hwritten c' hc'
  rw [he, hhead.id, hgid]
  exact (Reference.of_fixed
    (Class.mentions_of_fixed ((h.fresh g hg).classes c₀ hc₀) r' (hm ▸ hr'))).2

theorem class_accounted (h : m.AsLoaded) {f : ModelFile} (hf : f ∈ (m.link rules).model.files)
    {c : Class} (hc : c ∈ f.classes) {x : HeldReference} (hx : x ∈ c.heldReferences) :
    x.Resolved (m.link rules).model ∨ x.Diagnosed f.id (m.link rules).problems := by
  obtain ⟨n, hn, hhead⟩ := exists_named_file h hf
  obtain ⟨c', hc', hparent, hdecorators, -⟩ := hhead.classes c hc
  rcases classReferences_cases hx with ⟨y, hy, htarget, hat⟩ | ⟨r, hr, htarget, hat⟩
  · have hyn : y ∈ fileReferences n := by
      rw [hparent, hdecorators] at hy
      simp only [fileReferences, List.mem_append, List.mem_flatMap]
      exact Or.inl (Or.inr ⟨c', hc', List.mem_append_left _ hy⟩)
    obtain ⟨hfile, ⟨e, he, hlive⟩ | ⟨q, hq, herror, hl⟩⟩ := reference_of_named rules h hn hyn
    · exact Or.inl ⟨e, htarget.trans he, hlive⟩
    · exact Or.inr ⟨q, hq, herror, by
        rw [Diagnostic.file, hl, hfile, hhead.id], Or.inl (hl.trans hat.symm)⟩
  · have hmem : c ∈ (m.link rules).model.classes := List.mem_flatMap.mpr ⟨f, hf, hc⟩
    cases ht : r.target with
    | some t =>
      obtain ⟨q, hq, hid, -⟩ := goesBy_of_mentions h hmem hr ht
      exact Or.inl ⟨.property t, by rw [htarget, ht]; rfl,
        q, (sound_link rules h).numbered.mem_of_classProperties hq, hid⟩
    | none =>
      obtain ⟨d, hd, herror, hl⟩ := exists_classPropertyProblem hr ht
      refine Or.inr ⟨d, ?_, herror, ?_, Or.inl (hl.trans hat.symm)⟩
      · have hproblem : d ∈ propertyReferenceProblems (m.link rules).model :=
          List.mem_flatMap.mpr ⟨c, hmem, hd⟩
        rw [link_problems]
        simp [hproblem]
      · rw [Diagnostic.file, hl]
        exact location_of_mention h hf hc hr

/-! ### The whole file -/

/-- **Whatever a file of the linked model refers to points to something in the model, or an error of
the file is about it**, places that two aliases share apart. -/
theorem resolved_or_diagnosed (h : m.AsLoaded) {f : ModelFile} (hf : f ∈ (m.link rules).model.files)
    {x : HeldReference} (hx : x ∈ f.heldReferences) :
    x.Resolved (m.link rules).model ∨ x.Diagnosed f.id (m.link rules).problems ∨
      x.kind = .aliasProperty ∧ ∃ p ∈ f.properties, isOpenAlias p = true ∧
        x.enclosing = some p.location ∧ SharedPlace m p.location := by
  simp only [ModelFile.heldReferences, List.mem_append, List.mem_flatMap, List.mem_map] at hx
  rcases hx with (((⟨r, hr, rfl⟩ | ⟨a, ha, hx⟩) | ⟨d, hd, hx⟩) | ⟨c, hc, hx⟩) | ⟨p, hp, hx⟩
  · exact (use_accounted h hf hr).imp_right Or.inl
  · exact (alias_accounted h hf ha hx).imp_right Or.inl
  · exact (domain_accounted h hf hd hx).imp_right Or.inl
  · exact (class_accounted h hf hc hx).imp_right Or.inl
  · exact (property_accounted h hf hp hx).imp_right (Or.imp_right fun hs => ⟨hs.1, p, hp, hs.2⟩)

/-- **Where there is no error, no alias is open**: nothing was given up. -/
theorem closed_of_no_errors (h : m.AsLoaded)
    (hnone : ∀ d ∈ (m.link rules).problems, d.isError = false) {p : Property}
    (hp : p ∈ (m.link rules).model.properties) : isOpenAlias p = false := by
  rw [Bool.eq_false_iff]
  intro ho
  have hclear : ∀ d ∈ (m.link rules).problems, d.isError ≠ true := fun d hd => by
    rw [hnone d hd]
    exact Bool.false_ne_true
  rw [properties_link] at hp
  have hmem := mem_of_alias rules false _ _ (isSome_alias?_of_open ho) hp
  have hs := sound_named rules h
  obtain ⟨d, hd, -, -, hexc⟩ :=
    Run.given (run_resolveAliases hs) hs rfl _ (mem_failed_of_open hs hmem ho)
  rcases hexc with ⟨a, hk, hC⟩ | ⟨q, hq, herror, -⟩
  · -- the class of the alias is not known
    obtain ⟨n, hn, hdn⟩ := Model.exists_file_of_mem hd
    have hy : EntityReference.cls a.cls ∈ propertyReferences d := by simp [propertyReferences, hk]
    obtain ⟨-, ⟨e, he, -⟩ | ⟨q, hq, herror, -⟩⟩ :=
      reference_of_named rules h hn (mem_fileReferences hdn hy)
    · simp [EntityReference.target, hC] at he
    · exact hclear q hq herror
  · refine hclear q ?_ herror
    have hq : q ∈ (expanded rules m).problems := hq
    rw [link_problems]
    simp [hq]

/-- **Where there is no error, everything is resolved.** -/
theorem resolved_of_no_errors (h : m.AsLoaded)
    (hnone : ∀ d ∈ (m.link rules).problems, d.isError = false) {f : ModelFile}
    (hf : f ∈ (m.link rules).model.files) {x : HeldReference} (hx : x ∈ f.heldReferences) :
    x.Resolved (m.link rules).model := by
  rcases resolved_or_diagnosed h hf hx with hr | ⟨d, hd, herror, -⟩ | ⟨-, p, hp, hopen, -⟩
  · exact hr
  · rw [hnone d hd] at herror
    exact absurd herror (by simp)
  · rw [closed_of_no_errors h hnone (Model.properties_of_mem hf hp)] at hopen
    exact absurd hopen (by simp)

end EntityModel.Linking
