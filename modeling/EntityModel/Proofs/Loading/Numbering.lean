import EntityModel.Proofs.Loading.Relabelling
import EntityModel.Proofs.Model.Shape

/-!
# Loaded files

What loading makes of a text: a file that carries the id and the name it was asked for, whose
declarations and properties are numbered by their places (`ModelFile.numbered_of_load`), and in
which no reference points anywhere yet and every place lies in the file itself
(`ModelFile.fresh_of_load`). The second is read off `ModelFile.load_relabel`: the file is its own
relabelling to its own id.
-/

namespace EntityModel

namespace Source

/-- Whatever `x` reads has the property. -/
def Returns {α : Type} (P : α → Prop) (x : Read α) : Prop :=
  ∀ r a r', x r = .ok a r' → P a

namespace Returns

theorem pure {α : Type} {P : α → Prop} {a : α} (h : P a) : Returns P (Pure.pure a) := by
  rintro r _ _ ⟨⟩
  exact h

theorem bind {α β : Type} {P : α → Prop} {Q : β → Prop} {x : Read α} {f : α → Read β}
    (hx : Returns P x) (hf : ∀ a, P a → Returns Q (f a)) : Returns Q (x >>= f) := by
  intro r b r' h
  change EStateM.bind x f r = _ at h
  unfold EStateM.bind at h
  cases hr : x r with
  | ok a r₁ => rw [hr] at h; exact hf a (hx r a r₁ hr) r₁ b r' h
  | error e r₁ => rw [hr] at h; exact absurd h (by simp)

theorem bind_any {α β : Type} {Q : β → Prop} {x : Read α} {f : α → Read β}
    (hf : ∀ a, Returns Q (f a)) : Returns Q (x >>= f) :=
  Returns.bind (P := fun _ => True) (fun _ _ _ _ => trivial) fun a _ => hf a

theorem fail {α : Type} {P : α → Prop} (cause : LoadCause) (l : Location) :
    Returns P (Read.fail cause l) := by
  rintro r _ _ ⟨⟩

end Returns

end Source

namespace Loading

open Source

theorem positional_own (owner : PropertyOwner) (drafts : List PropertyDraft) :
    Positional owner (own owner drafts) := by
  intro i p hp
  simp only [own, List.getElem?_mapIdx, Option.map_eq_some_iff] at hp
  obtain ⟨d, _, rfl⟩ := hp
  rfl

theorem NumberedBy.concat {k : Kind} {α : Type} {ident : α → Id k} {file : FileId}
    {as : List α} {a : α} (h : NumberedBy ident file as) (ha : ident a = ⟨file, as.length⟩) :
    NumberedBy ident file (as ++ [a]) := by
  intro i b hb
  rw [List.getElem?_append] at hb
  split at hb
  · exact h i b hb
  next hi =>
    rw [List.getElem?_singleton] at hb
    split at hb
    next h0 =>
      obtain rfl := Option.some.inj hb
      rw [ha]
      congr 1
      omega
    · exact absurd hb (by simp)

theorem returns_domain (ident : DomainId) (location : Location) :
    Returns (fun d => d.id = ident) (domain ident location) :=
  .bind_any fun _ => .bind_any fun _ => .pure rfl

theorem returns_decorator (ctx : Context) (ident : DecoratorId) (location : Location) :
    Returns (fun d => d.id = ident ∧ Positional (.decorator d.id) d.properties)
      (decorator ctx ident location) :=
  .bind_any fun _ => .bind_any fun _ => .pure ⟨rfl, positional_own _ _⟩

theorem returns_cls (ctx : Context) (ident : ClassId) (location : Location) :
    Returns (fun c => c.id = ident ∧ Positional (.cls c.id) c.properties)
    (cls ctx ident location) :=
  .bind_any fun _ => .bind_any fun _ => .bind_any fun _ => .pure ⟨rfl, positional_own _ _⟩

theorem returns_endpoint (ctx : Context) (ident : EndpointId) (location : Location) :
    Returns (fun e => e.id = ident ∧ Positional (.params e.id) e.params ∧
      Positional (.returns e.id) e.returns.toList) (endpoint ctx ident location) := by
  refine .bind_any fun d => .bind_any fun _ => .bind_any fun _ =>
    .pure ⟨rfl, positional_own _ _, ?_⟩
  have hown := positional_own (.returns ident) d.returns.toList
  cases h : d.returns with
  | none => exact fun i p hp => by simp [own] at hp
  | some p =>
    rw [h] at hown
    simpa [own] using hown

theorem returns_fileAlias (ident : AliasId) (location : Location) :
    Returns (fun a => a.id = ident) (fileAlias ident location) :=
  .bind_any fun _ => .bind_any fun _ => .pure rfl

/-- The file keeps its id and its name, brings in what it did, and stays numbered. -/
structure Extends (f f' : ModelFile) : Prop where
  id : f'.id = f.id
  name : f'.name = f.name
  resolvedAliases : f'.resolvedAliases = f.resolvedAliases
  numbered : f.Numbered → f'.Numbered
  aliases : NumberedBy Alias.id f.id f.aliases → NumberedBy Alias.id f'.id f'.aliases

theorem Extends.refl (f : ModelFile) : Extends f f := ⟨rfl, rfl, rfl, fun h => h, fun h => h⟩

theorem Extends.trans {f g h : ModelFile} (hfg : Extends f g) (hgh : Extends g h) :
    Extends f h where
  id := hgh.id.trans hfg.id
  name := hgh.name.trans hfg.name
  resolvedAliases := hgh.resolvedAliases.trans hfg.resolvedAliases
  numbered hf := hgh.numbered (hfg.numbered hf)
  aliases hf := hgh.aliases (hfg.aliases hf)

theorem returns_entity (ctx : Context) {f : ModelFile} (hid : f.id = ctx.file) :
    Returns (Extends f) (entity ctx f) := by
  have hend : ∀ {f' : ModelFile}, Extends f f' → Returns (Extends f)
      (do if ← Read.consumeIf .mappingEnd then return f'
          Read.fail .severalEntities (← Read.location)) := by
    intro f' hf'
    refine .bind_any fun b => ?_
    cases b with
    | true => exact .pure hf'
    | false => exact .bind_any fun _ => .fail _ _
  refine .bind_any fun _ => .bind_any fun kind => ?_
  dsimp only
  split
  · refine (returns_domain _ _).bind fun d hd =>
      hend ⟨rfl, rfl, rfl, fun h => { h with domains := ?_ }, fun h => h⟩
    exact NumberedBy.concat h.domains (hid ▸ hd)
  · refine (returns_decorator _ _ _).bind fun d hd => hend ⟨rfl, rfl, rfl, fun h => { h with
      decorators := NumberedBy.concat h.decorators (hid ▸ hd.1), ofDecorator := ?_ }, fun h => h⟩
    intro d' hd'
    rcases List.mem_append.mp hd' with hd' | hd'
    · exact h.ofDecorator d' hd'
    · exact List.mem_singleton.mp hd' ▸ hd.2
  · refine (returns_cls _ _ _).bind fun c hc => hend ⟨rfl, rfl, rfl, fun h => { h with
      classes := NumberedBy.concat h.classes (hid ▸ hc.1), ofClass := ?_ }, fun h => h⟩
    intro c' hc'
    rcases List.mem_append.mp hc' with hc' | hc'
    · exact h.ofClass c' hc'
    · exact List.mem_singleton.mp hc' ▸ hc.2
  · refine (returns_endpoint _ _ _).bind fun e he => hend ⟨rfl, rfl, rfl, fun h => { h with
      endpoints := NumberedBy.concat h.endpoints (hid ▸ he.1), ofParams := ?_, ofReturns := ?_ },
      fun h => h⟩
    all_goals
      intro e' he'
      rcases List.mem_append.mp he' with he' | he'
    · exact h.ofParams e' he'
    · exact List.mem_singleton.mp he' ▸ he.2.1
    · exact h.ofReturns e' he'
    · exact List.mem_singleton.mp he' ▸ he.2.2
  · refine (returns_fileAlias _ _).bind fun a ha =>
      hend ⟨rfl, rfl, rfl, fun h => { h with }, fun h => ?_⟩
    exact NumberedBy.concat h (hid ▸ ha)
  · exact .bind (P := fun _ => False) (.fail _ _) fun _ h => h.elim

theorem returns_entities (ctx : Context) (fuel : Nat) : ∀ {f : ModelFile}, f.id = ctx.file →
    Returns (Extends f) (entities ctx fuel f) := by
  induction fuel with
  | zero => exact fun _ => .pure (.refl _)
  | succ fuel ih =>
    intro f hid
    refine .bind_any fun b => ?_
    cases b with
    | true =>
      refine (returns_entity ctx hid).bind fun f' hf' => .bind_any fun _ => ?_
      intro r a r' h
      exact hf'.trans (ih (hf'.id.trans hid) r a r' h)
    | false => exact .pure (.refl _)

theorem returns_file (ident : FileId) (name app : String) (naming : NamingRules) :
    Returns (fun o => ∀ f, o = some f → f.id = ident ∧ f.name = name ∧
      f.resolvedAliases = [] ∧ f.Numbered ∧
      NumberedBy Alias.id f.id f.aliases) (file ident name app naming) := by
  refine .bind_any fun _ => .bind_any fun b => ?_
  cases b with
  | true => exact .pure (by simp)
  | false =>
    refine .bind_any fun start => .bind_any fun (h, modulePath) => .bind_any fun _ =>
      .bind_any fun r => ?_
    refine (returns_entities _ _ rfl).bind fun f hf => .bind_any fun _ => .pure ?_
    rintro _ ⟨⟩
    refine ⟨hf.id, hf.name, hf.resolvedAliases, hf.numbered ⟨?_, ?_, ?_, ?_, ?_, ?_, ?_, ?_⟩,
      hf.aliases ?_⟩
    all_goals simp [NumberedBy]

end Loading

namespace ModelFile

/-- The relabelling to one id that drops all targets. -/
def only (id : FileId) : Relabelling where
  file _ := id
  keep := false

/-- No reference points anywhere, and every place lies in the file. -/
def Fresh (f : ModelFile) : Prop := f.relabel (only f.id) = f

variable {id : FileId} {name source app : String} {naming : NamingRules} {f : ModelFile}

theorem exists_run_of_load {file : Option ModelFile}
    (h : load id name source app naming = .ok file) :
    ∃ events r, Source.events id name source = .ok events ∧
      Loading.file id name app naming (.ofEvents name events) = .ok file r := by
  unfold load at h
  cases hevents : Source.events id name source with
  | error e =>
    rw [hevents] at h
    exact nomatch h
  | ok events =>
    rw [hevents] at h
    change ofEvents id name app naming events = .ok file at h
    unfold ofEvents at h
    split at h
    next hrun =>
      obtain rfl := Except.ok.inj h
      exact ⟨events, _, rfl, hrun⟩
    · exact nomatch h

theorem returns_load (h : load id name source app naming = .ok (some f)) :
    f.id = id ∧ f.name = name ∧ f.resolvedAliases = [] ∧ f.Numbered ∧
    NumberedBy Alias.id f.id f.aliases := by
  obtain ⟨events, r, -, hrun⟩ := exists_run_of_load h
  exact Loading.returns_file id name app naming _ _ _ hrun f rfl

/-- **A loaded file is numbered** and has the id and the name that were asked for. -/
theorem numbered_of_load (h : load id name source app naming = .ok (some f)) :
    f.id = id ∧ f.name = name ∧ f.Numbered := by
  obtain ⟨hid, hname, -, hnumbered, -⟩ := returns_load h
  exact ⟨hid, hname, hnumbered⟩

theorem aliases_numbered_of_load (h : load id name source app naming = .ok (some f)) :
    NumberedBy Alias.id f.id f.aliases := (returns_load h).2.2.2.2

/-- A loaded file does not know yet what its aliases bring in. -/
theorem resolvedAliases_of_load (h : load id name source app naming = .ok (some f)) :
    f.resolvedAliases = [] := (returns_load h).2.2.1

/-- **In a loaded file nothing points anywhere, and every place lies in the file.** -/
theorem fresh_of_load (h : load id name source app naming = .ok (some f)) : f.Fresh := by
  have hrelabel := load_relabel (only id) id name source app naming
  change load id name source app naming = _ at hrelabel
  rw [h] at hrelabel
  have hf : f = f.relabel (only id) := by simpa [Source.relabelOutcome] using hrelabel
  unfold Fresh
  rw [(numbered_of_load h).1]
  exact hf.symm

end ModelFile

end EntityModel
