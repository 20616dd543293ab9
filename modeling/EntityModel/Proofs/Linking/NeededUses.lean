import EntityModel.Proofs.Linking.Visibility

/-!
# Needed uses

A file sees what it has itself, and behind that what each of its uses brings in, in order.  So a
name that it has not itself stands for what the first use brings in that brings in anything of the
name, and this is the one use that a reference of the name needs (`SeenThrough`).  A use is useless
if no reference needs it (`uselessUses_eq`).

What follows for leaving uses away is told of one name first.  As long as the use that is needed
stays, the name stands for the same thing (`SeenThrough.same_of_kept`), and without that use it
stands for another one or for nothing, if no other use brings in the same thing
(`SeenThrough.differs_of_dropped`).
-/

namespace EntityModel

/-! ### First matches -/

theorem findSome?_eq_bind_find? {α β : Type} (g : α → Option β) (l : List α) :
    l.findSome? g = (l.find? fun a => (g a).isSome).bind g := by
  induction l with
  | nil => rfl
  | cons a rest ih =>
    rw [List.findSome?_cons, List.find?_cons, ih]
    cases ha : g a with
    | none => rfl
    | some b => simp [ha]

/-- The first match of a list is the first of its part, if it is in that part. -/
theorem find?_filter_of_first {α : Type} {p q : α → Bool} {l : List α}
    (h : ∀ a, l.find? q = some a → p a = true) : (l.filter p).find? q = l.find? q := by
  induction l with
  | nil => rfl
  | cons a rest ih =>
    cases hq : q a with
    | true =>
      have hp := h a (by rw [List.find?_cons, hq])
      rw [List.filter_cons, if_pos hp, List.find?_cons, List.find?_cons, hq]
    | false =>
      have hrest := ih fun b hb => h b (by rw [List.find?_cons, hq, hb])
      rw [List.filter_cons]
      split
      · rw [List.find?_cons, List.find?_cons, hq, hrest]
      · rw [List.find?_cons, hq, hrest]

namespace Linking

/-! ### What is seen through uses -/

section Seen

variable {α : Type} {own seen seen' : List (Visible α)} {uses : List FileReference}
  {brings : String → FileReference → Option α} {name : String}

/-- The first use that brings in something of the name. -/
def bringer (brings : String → FileReference → Option α) (uses : List FileReference)
    (name : String) :
    Option FileReference :=
  uses.find? fun use => (brings name use).isSome

theorem brings_of_bringer {use : FileReference} (h : bringer brings uses name = some use) :
    use ∈ uses ∧ ∃ target, brings name use = some target :=
  ⟨List.mem_of_find?_eq_some h, Option.isSome_iff_exists.mp
    (List.find?_some (p := fun use => (brings name use).isSome) h)⟩

/-- What is seen is what a file has itself, and behind it what each of its uses brings in. -/
structure SeenThrough (own seen : List (Visible α)) (uses : List FileReference)
    (brings : String → FileReference → Option α) : Prop where
  first : ∀ name, firstVisible seen name = (firstVisible own name).or
    (uses.zipIdx.findSome? fun x => (brings name x.1).map fun target => ⟨name, target, .use x.2⟩)
  own : ∀ v ∈ own, v.origin = .own

theorem target_findSome? (name : String) : (uses.zipIdx.findSome? fun x =>
    (brings name x.1).map fun target => (⟨name, target, .use x.2⟩ : Visible α)).map (·.target)
      = uses.findSome? (brings name) := by
  rw [List.map_findSome?]
  conv_rhs => rw [← List.zipIdx_map_fst 0 uses, List.findSome?_map]
  congr 1
  funext x
  exact (Option.map_map ..).trans Option.map_id'

/-- A name stands for what the file has itself, or for what the first of its uses brings in. -/
theorem SeenThrough.target (h : SeenThrough own seen uses brings) (name : String) :
    (firstVisible seen name).map (·.target)
      = ((firstVisible own name).map (·.target)).or
        ((bringer brings uses name).bind (brings name)) := by
  rw [h.first, Option.map_or, target_findSome?, findSome?_eq_bind_find?]
  rfl

/-- **A use is needed for a name that the file has not itself and that it is the first to bring
in.** -/
theorem SeenThrough.through (h : SeenThrough own seen uses brings) (hnodup : uses.Nodup)
    {use : FileReference} {index : Nat} (hat : (use, index) ∈ uses.zipIdx) :
    (firstVisible seen name).any (·.origin == .use index)
      = ((firstVisible own name).isNone && bringer brings uses name == some use) := by
  have hbringer : bringer brings uses name
      = (uses.zipIdx.find? fun x => (brings name x.1).isSome).map Prod.fst := by
    unfold bringer
    conv_lhs => rw [← List.zipIdx_map_fst 0 uses, List.find?_map]
    rfl
  rw [h.first]
  cases hown : firstVisible own name with
  | some v =>
    rw [Option.some_or, Option.any_some, h.own v (List.mem_of_find?_eq_some hown)]
    rfl
  | none =>
    rw [Option.none_or, findSome?_eq_bind_find?, hbringer]
    simp only [Option.isSome_map, Option.isNone_none, Bool.true_and]
    cases hz : uses.zipIdx.find? fun x => (brings name x.1).isSome with
    | none => rfl
    | some x =>
      have hsome : (brings name x.1).isSome = true :=
        List.find?_some (p := fun x : FileReference × Nat => (brings name x.1).isSome) hz
      obtain ⟨target, ht⟩ := Option.isSome_iff_exists.mp hsome
      have hx := List.mem_zipIdx_iff_getElem?.mp (List.mem_of_find?_eq_some hz)
      have huse := List.mem_zipIdx_iff_getElem?.mp hat
      rw [Option.bind_some, ht, Bool.eq_iff_iff]
      simp only [Option.map_some, Option.any_some, beq_iff_eq, Origin.use.injEq, Option.some.injEq]
      constructor
      · rintro rfl
        exact Option.some.inj (hx.symm.trans huse)
      · intro he
        have hlt := (List.getElem?_eq_some_iff.mp hx).1
        exact (List.getElem?_inj hlt hnodup).mp (hx.trans (huse.trans (congrArg some he.symm)).symm)

/-- **As long as the use that is needed stays, the name stands for the same thing.** -/
theorem SeenThrough.same_of_kept {keep : FileReference → Bool}
    (h : SeenThrough own seen uses brings) (h' : SeenThrough own seen' (uses.filter keep) brings)
    (hkeep : ∀ use, firstVisible own name = none → bringer brings uses name = some use →
      keep use = true) :
    (firstVisible seen' name).map (·.target) = (firstVisible seen name).map (·.target) := by
  rw [h.target, h'.target]
  cases hown : firstVisible own name with
  | some v => rfl
  | none =>
    have hsame : bringer brings (uses.filter keep) name = bringer brings uses name :=
      find?_filter_of_first fun use => hkeep use hown
    rw [hsame]

/-- **Without it the name stands for another thing or for nothing**, if no other use brings in the
same. -/
theorem SeenThrough.differs_of_dropped {keep : FileReference → Bool}
    (h : SeenThrough own seen uses brings)
    (h' : SeenThrough own seen' (uses.filter keep) brings) {use : FileReference}
    (hown : firstVisible own name = none) (hfirst : bringer brings uses name = some use)
    (hapart : ∀ other ∈ uses, keep other = true → ∀ target, brings name use = some target →
      brings name other ≠ some target) :
    (firstVisible seen' name).map (·.target) ≠ (firstVisible seen name).map (·.target) := by
  obtain ⟨-, target, ht⟩ := brings_of_bringer hfirst
  have hseen : (firstVisible seen name).map (·.target) = some target := by
    rw [h.target, hown, hfirst]
    exact ht
  rw [hseen, h'.target, hown, Option.map_none, Option.none_or]
  cases hother : bringer brings (uses.filter keep) name with
  | none => simp
  | some other =>
    obtain ⟨hmem, hkept⟩ := List.mem_filter.mp (brings_of_bringer hother).1
    exact hapart other hmem hkept target ht

end Seen

/-! ### What a file has, and what its uses bring in -/

variable {m : Model} {f : ModelFile}

def findDecorator (f : ModelFile) (name : String) : Option DecoratorId :=
  (f.decorators.find? (·.name.value == name)).map (·.id)

def broughtBy {α : Type} (m : Model) (find : ModelFile → String → Option α) (name : String)
    (use : FileReference) : Option α :=
  (use.target.bind m.file?).bind (find · name)

def ownClasses (m : Model) (f : ModelFile) : List (Visible ClassId) :=
  f.classes.map (visibleClass .own) ++ (f.aliasedClasses.filterMap m.cls?).map (visibleClass .own)

def ownDecorators (f : ModelFile) : List (Visible DecoratorId) :=
  f.decorators.map (visibleDecorator .own)

theorem firstVisible_usedFiles {α β : Type} {decls : ModelFile → List β}
    {see : Origin → β → Visible α}
    {nameOf : β → String} {ident : β → α}
    (hsee : ∀ o b, see o b = ⟨nameOf b, ident b, o⟩) (m : Model) (f : ModelFile) (name : String) :
    firstVisible ((usedFiles m f).flatMap fun (index, used) => (decls used).map (see (.use index)))
      name
      = f.uses.zipIdx.findSome? fun x =>
          (broughtBy m (fun used name => ((decls used).find? (nameOf · == name)).map ident) name
            x.1).map
            fun target => ⟨name, target, .use x.2⟩ := by
  unfold firstVisible usedFiles
  rw [List.find?_flatMap, ← List.head?_filterMap, ← List.head?_filterMap, List.filterMap_filterMap]
  congr 2
  funext ⟨use, index⟩
  dsimp only [broughtBy]
  cases use.target.bind m.file? with
  | none => rfl
  | some used =>
    simp only [Option.map_some, Option.bind_some, List.find?_map, Function.comp_def, hsee,
      Option.map_map]
    refine Option.map_congr fun b hb => ?_
    rw [hsee, beq_iff_eq.mp (List.find?_some (p := fun b => nameOf b == name) hb)]

theorem seenThrough_classes (m : Model) (f : ModelFile) :
    SeenThrough (ownClasses m f) (scopeOf m f).classes f.uses (broughtBy m findClass) where
  first name := by
    rw [firstVisible, scopeOf, List.find?_append]
    exact congrArg _ (firstVisible_usedFiles (fun _ _ => rfl) m f name)
  own v hv := by
    rcases List.mem_append.mp hv with hv | hv
    all_goals
      obtain ⟨c, -, rfl⟩ := List.mem_map.mp hv
      rfl

theorem seenThrough_decorators (m : Model) (f : ModelFile) :
    SeenThrough (ownDecorators f) (scopeOf m f).decorators f.uses (broughtBy m findDecorator) where
  first name := by
    rw [firstVisible, scopeOf, List.find?_append]
    exact congrArg _ (firstVisible_usedFiles (fun _ _ => rfl) m f name)
  own v hv := by
    obtain ⟨d, -, rfl⟩ := List.mem_map.mp hv
    rfl

/-! ### Useless uses -/

/-- The reference finds what it stands for through the use. -/
def EntityReference.needs (m : Model) (f : ModelFile) (use : FileReference) : EntityReference → Bool
  | .cls r => (firstVisible (ownClasses m f) r.text).isNone
      && bringer (broughtBy m findClass) f.uses r.text == some use
  | .decorator r => (firstVisible (ownDecorators f) r.text).isNone
      && bringer (broughtBy m findDecorator) f.uses r.text == some use
  | .domain _ => false

/-- **The useless uses of a file are those that are resolved and that none of its references
needs.** -/
theorem uselessUses_eq (m : Model) (hnodup : f.uses.Nodup) : uselessUses m f
    = f.uses.filter fun use => use.target.isSome && !(fileReferences f).any (·.needs m f use) := by
  have hneeded : ∀ x ∈ f.uses.zipIdx, isUseNeeded (scopeOf m f) (fileReferences f) x.2
      = (fileReferences f).any (·.needs m f x.1) := fun x hx => by
    unfold isUseNeeded
    congr 1
    funext r
    cases r with
    | cls r => exact (seenThrough_classes m f).through hnodup hx
    | decorator r => exact (seenThrough_decorators m f).through hnodup hx
    | domain r => rfl
  unfold uselessUses
  simp only []
  conv_rhs => rw [← List.zipIdx_map_fst 0 f.uses, List.filter_map]
  refine congrArg (List.map Prod.fst) (List.filter_congr fun x hx => ?_)
  rw [hneeded x hx, Function.comp_apply]

end Linking

end EntityModel
