import EntityModel.Loading.Blocks
import EntityModel.Proofs.Source.Reading

/-!
# Which blocks the loader accepts

Each block is read exactly when it has the form that the grammar gives it.  What a draft holds after
some entries is told for the keys that finishing the block looks at; every other key leaves that
alone.
-/

namespace EntityModel.Grammar

open Source

variable {keys : Keys} {key : String}

/-! ### The value of a key, entry by entry -/

section Concat

variable (key : String) (before : List Entry) (k : Scalar) (node : Node)

theorem value?_concat :
    value? key (before ++ [(k, node)]) = if k.text = key then some node else value? key before := by
  by_cases h : k.text = key <;> simp [value?, h]

@[simp] theorem text?_concat :
    text? key (before ++ [(k, node)]) = if k.text = key then stated? node
      else text? key before := by
  rw [text?, value?_concat]
  split <;> rfl

@[simp] theorem flag_concat :
    flag key (before ++ [(k, node)]) = if k.text = key then isScalarOf saysTrue node
      else flag key before := by
  rw [flag, value?_concat]
  split <;> rfl

end Concat

theorem block_eq (keys : Keys) (required : List String) (node : Node) :
    block keys required node
      = (mappingOf (known keys) node && required.all (present · (entriesOf node))) := by
  cases node <;> rfl

theorem lookup_map_shape (languages : List String) (shape : Node → Bool) :
    (languages.map (·, shape)).lookup key = if languages.contains key then some shape
      else none := by
  induction languages with
  | nil => rfl
  | cons language languages ih =>
    rw [List.map_cons, List.lookup_cons, ih, List.contains_cons]
    cases key == language <;> rfl

/-- Behind the keys of its own a block may have one key for each language. -/
theorem lookup_language {keys : Keys} (languages : List String) (shape : Node → Bool)
    (h : keys.lookup key = none) :
    (keys ++ languages.map (·, shape)).lookup key = if languages.contains key then some shape
      else none := by
  rw [List.lookup_append, h, lookup_map_shape]
  rfl

end EntityModel.Grammar

namespace EntityModel.Loading

open Source Grammar

section Keys

variable {α σ : Type} {keys : Keys} {key : String} {shape : Node → Bool} {P : Node → α → Prop}
  {Q : Node → σ → Prop}

theorem reads_key {x : Read σ} (hkey : keys.lookup key = some shape) (hx : Reads x shape Q) :
    Reads x (fits keys key) Q := by
  have hfits : fits keys key = shape := funext fun node => by rw [fits, hkey]; rfl
  rwa [hfits]

theorem reads_field {x : Read α} {g : α → σ} (hkey : keys.lookup key = some shape)
    (hx : Reads x shape P)
    (hQ : ∀ node a, P node a → Q node (g a)) :
    Reads (x >>= fun a => pure (g a)) (fits keys key) Q :=
  reads_key hkey (hx.map hQ)

theorem reads_unknownKey {b : Block} {l : Location} (hkey : keys.lookup key = none) :
    Reads (Read.unknownKey b ⟨key, l⟩) (fits keys key) Q := by
  have hfits : fits keys key = fun _ => false := funext fun node => by rw [fits, hkey]; rfl
  rw [hfits]
  exact fun _ _ => .fail _ _

theorem reads_block {f : σ → Located String → Read σ} (acc : σ)
    (h : ∀ acc key l, Reads (f acc ⟨key, l⟩) (fits keys key) fun _ _ => True) :
    Reads (Read.mapping f acc) (block keys []) fun _ _ => True := by
  have hshape : block keys [] = mappingOf (known keys) := funext fun node => by
    rw [block_eq, List.all_nil, Bool.and_true]
  rw [hshape]
  exact Gathers.mapping (I := fun _ _ => True)
    (.ofKeys fun _ key acc l _ => h acc key.text l) rfl trivial

theorem takes_required {value : Option (Located String)} {entries : List Entry}
    (h : value.map Located.value = text? key entries) (requirement : Requirement) (l : Location) :
    Takes (Read.require value requirement l) [] (present key entries) (value = some ·) := by
  rw [present, ← h, Option.isSome_map]
  exact Takes.require _ _

theorem text?_of_required {value : Option (Located String)} {entries : List Entry}
    {name : Located String}
    (h : value.map Located.value = text? key entries) (hname : value = some name) :
    text? key entries = some name.value := by
  rw [← h, hname]
  rfl

end Keys

/-! ### The header of a file -/

theorem reads_endpointOptions :
    Reads endpointOptions (block endpointOptionsKeys []) fun _ _ => True := by
  refine reads_block _ fun o key l => ?_
  dsimp only
  split
  · exact reads_field rfl .optionalString fun _ _ _ => trivial
  · exact reads_field rfl .optionalString fun _ _ _ => trivial
  · exact reads_unknownKey (by simp_all [endpointOptionsKeys, List.lookup_eq_none_iff])

theorem reads_fileOptions : Reads fileOptions (block optionsKeys []) fun _ _ => True := by
  refine reads_block _ fun o key l => ?_
  dsimp only
  split
  · exact reads_key rfl reads_endpointOptions
  · exact reads_unknownKey (by simp_all [optionsKeys, List.lookup_eq_none_iff])

theorem gathers_header :
    Gathers Header.set (known headerKeys) fun entries h => h.module.map Located.value
      = text? "module" entries := by
  refine .ofKeys fun before ⟨key, start⟩ h l hI => ?_
  dsimp only [Header.set]
  split
  · exact reads_field rfl .optionalScalar fun node a ha => by simp [ha]
  · exact reads_field rfl .stringList fun node a ha => by simp [hI]
  · exact reads_field rfl .scalarList fun node a ha => by simp [hI]
  · exact reads_field rfl reads_fileOptions fun node a ha => by simp [hI]
  · exact reads_unknownKey (by simp_all [headerKeys, List.lookup_eq_none_iff])

theorem reads_header (location : Location) :
    Reads (header location) Grammar.header fun node h => text? "module" (entriesOf node)
      = some h.2 := by
  intro o node
  rw [Grammar.header, block_eq, List.all_cons, List.all_nil, Bool.and_true]
  refine Takes.andThen (gathers_header.mapping rfl rfl o node) fun h _ hmodule => ?_
  exact (takes_required hmodule _ _).map fun _ hname => text?_of_required hmodule hname

/-! ### Domains -/

theorem reads_domainImplementation :
    Reads domainImplementation (block domainImplementationKeys []) fun _ _ => True := by
  refine reads_block _ fun i key l => ?_
  dsimp only
  split
  · exact reads_field rfl .optionalString fun _ _ _ => trivial
  · exact reads_field rfl .stringList fun _ _ _ => trivial
  · exact reads_field rfl .stringList fun _ _ _ => trivial
  · exact reads_unknownKey (by simp_all [domainImplementationKeys, List.lookup_eq_none_iff])

theorem reads_asDomains (m : OrderedMap DomainReference) :
    Reads (Read.mapping
      (fun m as => do return OrderedMap.put m as.value (.ofName (← Read.scalar))) m)
      (mapOf isScalar) fun _ _ => True :=
  Gathers.mapping (I := fun _ _ => True)
    (.ofAny fun _ _ _ _ _ => Reads.scalar.map fun _ _ _ => trivial) rfl trivial

theorem gathers_domain :
    Gathers DomainDraft.set (known domainKeys) fun entries d => d.name.map Located.value
      = text? "name" entries := by
  refine .ofKeys fun before ⟨key, start⟩ d l hI => ?_
  dsimp only [DomainDraft.set]
  split
  · exact reads_field rfl .optionalScalar fun node a ha => by simp [ha]
  · exact reads_field rfl .optionalString fun node a ha => by simp [hI]
  · exact reads_field rfl .number fun node a ha => by simp [hI]
  · exact reads_field rfl .number fun node a ha => by simp [hI]
  · exact reads_field rfl .bool fun node a ha => by simp [hI]
  · exact reads_field rfl .optionalString fun node a ha => by simp [hI]
  · exact reads_field rfl .bool fun node a ha => by simp [hI]
  · exact reads_field rfl (reads_asDomains _) fun node a ha => by simp [hI]
  · have hkey : domainKeys.lookup key
        = if domainLanguages.contains key then some (block domainImplementationKeys []) else none :=
      lookup_language _ _ (by simp_all [List.lookup_eq_none_iff])
    split
    · rename_i hlanguage
      rw [if_pos hlanguage] at hkey
      exact reads_field hkey reads_domainImplementation fun node a ha => by simp_all
    · rename_i hlanguage
      rw [if_neg hlanguage] at hkey
      exact reads_unknownKey hkey

theorem reads_domain (id : DomainId) (location : Location) :
    Reads (domain id location) Grammar.domain fun node d =>
      d.location = location ∧ text? "name" (entriesOf node) = some d.name.value := by
  intro o node
  rw [Grammar.domain, block_eq, List.all_cons, List.all_nil, Bool.and_true]
  refine Takes.andThen (gathers_domain.mapping rfl rfl o node) fun d _ hname => ?_
  exact (takes_required hname _ _).map fun _ h => ⟨rfl, text?_of_required hname h⟩

/-! ### Aliases of files -/

theorem gathers_fileAlias :
    Gathers AliasDraft.set (known fileAliasKeys) fun entries d => d.file.map Located.value
      = text? "file" entries := by
  refine .ofKeys fun before ⟨key, start⟩ d l hI => ?_
  dsimp only [AliasDraft.set]
  split
  · exact reads_field rfl .optionalScalar fun node a ha => by simp [ha]
  · exact reads_field rfl .scalarList fun node a ha => by simp [hI]
  · exact reads_field rfl .scalarList fun node a ha => by simp [hI]
  · exact reads_unknownKey (by simp_all [fileAliasKeys, List.lookup_eq_none_iff])

theorem reads_fileAlias (id : AliasId) (location : Location) :
    Reads (fileAlias id location) Grammar.fileAlias fun node a =>
      a.location = location ∧ text? "file" (entriesOf node) = some a.file.text := by
  intro o node
  rw [Grammar.fileAlias, block_eq, List.all_cons, List.all_nil, Bool.and_true]
  refine Takes.andThen (gathers_fileAlias.mapping rfl rfl o node) fun d _ hfile => ?_
  exact (takes_required hfile _ _).map fun _ h => ⟨rfl, text?_of_required hfile h⟩

end EntityModel.Loading
