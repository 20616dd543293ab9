import EntityModel.Proofs.Model.Numbering

/-!
# The shape of a file

Whether a model is numbered depends on its ids alone, so it is enough to look at the ids of each
file: `ModelFile.Numbered` says that one file is, and `ModelFile.shape` is all that this depends on.
The stages of linking that resolve references change no shape (`Model.Numbered.mapFiles`).
-/

namespace EntityModel

namespace ModelFile

structure Numbered (f : ModelFile) : Prop where
  domains : NumberedBy Domain.id f.id f.domains
  decorators : NumberedBy Decorator.id f.id f.decorators
  classes : NumberedBy Class.id f.id f.classes
  endpoints : NumberedBy Endpoint.id f.id f.endpoints
  ofClass : ∀ c ∈ f.classes, Positional (.cls c.id) c.properties
  ofDecorator : ∀ d ∈ f.decorators, Positional (.decorator d.id) d.properties
  ofParams : ∀ e ∈ f.endpoints, Positional (.params e.id) e.params
  ofReturns : ∀ e ∈ f.endpoints, Positional (.returns e.id) e.returns.toList

/-- The ids of a file: its own, those of its domains, and those of the other declarations with those
of their properties. -/
def shape (f : ModelFile) :=
  (f.id, f.domains.map (·.id), f.decorators.map fun d => (d.id, d.properties.map (·.id)),
    f.classes.map fun c => (c.id, c.properties.map (·.id)),
    f.endpoints.map fun e => (e.id, e.params.map (·.id), e.returns.toList.map (·.id)))

end ModelFile

theorem NumberedBy.congr {k : Kind} {α : Type} {ident : α → Id k} {file : FileId} {as bs : List α}
    (h : NumberedBy ident file as) (he : bs.map ident = as.map ident) :
    NumberedBy ident file bs := by
  intro i b hb
  have hi : (as.map ident)[i]? = some (ident b) := by rw [← he, List.getElem?_map, hb]; rfl
  rw [List.getElem?_map, Option.map_eq_some_iff] at hi
  obtain ⟨a, ha, hab⟩ := hi
  rw [← hab, h i a ha]

theorem Positional.congr {o : PropertyOwner} {ps qs : List Property} (h : Positional o ps)
    (he : qs.map (·.id) = ps.map (·.id)) : Positional o qs := by
  intro i q hq
  have hi : (ps.map (·.id))[i]? = some q.id := by rw [← he, List.getElem?_map, hq]; rfl
  rw [List.getElem?_map, Option.map_eq_some_iff] at hi
  obtain ⟨p, hp, hpq⟩ := hi
  rw [← hpq, h i p hp]

theorem ModelFile.Numbered.of_shape {f g : ModelFile} (h : f.Numbered) (hs : g.shape = f.shape) :
    g.Numbered := by
  simp only [shape, Prod.mk.injEq] at hs
  obtain ⟨hid, hdomains, hdecorators, hclasses, hendpoints⟩ := hs
  refine ⟨?_, ?_, ?_, ?_, ?_, ?_, ?_, ?_⟩
  · exact hid ▸ h.domains.congr hdomains
  · refine hid ▸ h.decorators.congr ?_
    simpa [Function.comp_def] using congrArg (List.map Prod.fst) hdecorators
  · refine hid ▸ h.classes.congr ?_
    simpa [Function.comp_def] using congrArg (List.map Prod.fst) hclasses
  · refine hid ▸ h.endpoints.congr ?_
    simpa [Function.comp_def] using congrArg (List.map Prod.fst) hendpoints
  · intro c hc
    have hmem := List.mem_map_of_mem (f := fun c : Class => (c.id, c.properties.map (·.id))) hc
    rw [hclasses, List.mem_map] at hmem
    obtain ⟨c', hc', he⟩ := hmem
    obtain ⟨hcid, hps⟩ := Prod.mk.inj he
    exact hcid ▸ (h.ofClass c' hc').congr hps.symm
  · intro d hd
    have hmem := List.mem_map_of_mem (f := fun d : Decorator => (d.id, d.properties.map (·.id))) hd
    rw [hdecorators, List.mem_map] at hmem
    obtain ⟨d', hd', he⟩ := hmem
    obtain ⟨hdid, hps⟩ := Prod.mk.inj he
    exact hdid ▸ (h.ofDecorator d' hd').congr hps.symm
  all_goals
    intro e he
    have hmem := List.mem_map_of_mem
      (f := fun e : Endpoint => (e.id, e.params.map (·.id), e.returns.toList.map (·.id))) he
    rw [hendpoints, List.mem_map] at hmem
    obtain ⟨e', he', heq⟩ := hmem
    simp only [Prod.mk.injEq] at heq
    obtain ⟨heid, hparams, hreturns⟩ := heq
  · exact heid ▸ (h.ofParams e' he').congr hparams.symm
  · exact heid ▸ (h.ofReturns e' he').congr hreturns.symm

namespace Model

variable {m m' : Model}

/-- A model is numbered if its files are and have different ids. -/
theorem numbered_iff : m.Numbered ↔ (m.files.map (·.id)).Nodup ∧ ∀ f ∈ m.files, f.Numbered := by
  constructor
  · intro h
    refine ⟨h.files, fun f hf =>
      ⟨h.domains f hf, h.decorators f hf, h.classes f hf, h.endpoints f hf, fun c hc => ?_,
        fun d hd => ?_, fun e he => ?_, fun e he => ?_⟩⟩
    all_goals refine h.properties _ _ ?_
    all_goals simp only [owned, classes, decorators, endpoints, List.mem_append, List.mem_map,
      List.mem_flatMap]
    · exact Or.inl (Or.inl ⟨c, ⟨f, hf, hc⟩, rfl⟩)
    · exact Or.inl (Or.inr ⟨d, ⟨f, hf, hd⟩, rfl⟩)
    · exact Or.inr ⟨e, ⟨f, hf, he⟩, by simp⟩
    · exact Or.inr ⟨e, ⟨f, hf, he⟩, by simp⟩
  · rintro ⟨hids, hfiles⟩
    refine ⟨hids, fun f hf => (hfiles f hf).domains, fun f hf => (hfiles f hf).decorators,
      fun f hf => (hfiles f hf).classes, fun f hf => (hfiles f hf).endpoints, fun o ps ho => ?_⟩
    simp only [owned, classes, decorators, endpoints, List.mem_append, List.mem_map,
      List.mem_flatMap, List.mem_cons, List.not_mem_nil, or_false] at ho
    rcases ho with (⟨c, ⟨f, hf, hc⟩, he⟩ | ⟨d, ⟨f, hf, hd⟩, he⟩) | ⟨e, ⟨f, hf, hx⟩, he | he⟩
    all_goals obtain ⟨rfl, rfl⟩ := Prod.mk.inj he
    · exact (hfiles f hf).ofClass c hc
    · exact (hfiles f hf).ofDecorator d hd
    · exact (hfiles f hf).ofParams e hx
    · exact (hfiles f hf).ofReturns e hx

/-- Changing files without changing their shapes leaves the model numbered. -/
theorem Numbered.mapFiles {g : ModelFile → ModelFile} (h : m.Numbered)
    (hg : ∀ f ∈ m.files, (g f).shape = f.shape) : (m.mapFiles g).Numbered := by
  rw [numbered_iff] at h ⊢
  obtain ⟨hids, hfiles⟩ := h
  constructor
  · have : (m.mapFiles g).files.map (·.id) = m.files.map (·.id) := by
      unfold Model.mapFiles
      rw [List.map_map]
      exact List.map_congr_left fun f hf => congrArg Prod.fst (hg f hf)
    rwa [this]
  · intro f' hf'
    obtain ⟨f, hf, rfl⟩ := List.mem_map.mp hf'
    exact (hfiles f hf).of_shape (hg f hf)

end Model

end EntityModel
