import EntityModel.Proofs.Path.Rendering
import EntityModel.Proofs.Workspace.Reloading

/-!
# What the name of a model file tells

The name of a model file, read as a path again, has the components of the file below the root but
for the extension (`Path.components_intercalate`).  So the name settles the file, with one
exception: `..tmd` keeps both of its dots and has the name that `...tmd` has
(`Path.modelFileName?_eq_iff`).
-/

namespace EntityModel

namespace Path

variable {cs cs' dir below root : List Component} {c : Component} {p q : Path}
  {stem stem' : List Char}

/-! ### Components and the text that they spell -/

/-- A root or a dot only in front, as in the components of any path. -/
structure Spelled (cs : List Component) : Prop where
  head : ∀ c ∈ cs.head?, c = .root ∨ c = .current ∨ IsPlain c
  tail : ∀ c ∈ cs.tail, IsPlain c

theorem Spelled.of_isPlain (h : ∀ c ∈ cs, IsPlain c) : Spelled cs where
  head c hc := .inr (.inr (h c (List.mem_of_mem_head? hc)))
  tail c hc := h c (List.mem_of_mem_tail hc)

theorem Spelled.of_append (h : Spelled (cs ++ cs')) : Spelled cs' := by
  cases cs with
  | nil => exact h
  | cons c cs =>
    have hplain : ∀ d ∈ cs', IsPlain d := fun d hd => h.tail d (List.mem_append_right _ hd)
    exact .of_isPlain hplain

theorem Spelled.replace_last (h : Spelled (dir ++ [c])) {d : Component} (hd : IsPlain d) :
    Spelled (dir ++ [d]) := by
  cases dir with
  | nil => exact ⟨by simpa using .inr (.inr hd), by simp⟩
  | cons e dir =>
    refine ⟨h.head, fun x hx => ?_⟩
    rcases List.mem_append.mp hx with hx | hx
    · exact h.tail x (List.mem_append_left _ hx)
    · exact List.mem_singleton.mp hx ▸ hd

theorem isPlain_of_component? {part : List Char} (hslash : '/' ∉ part)
    (h : component? part = some c) : IsPlain c := by
  have hpart := h
  unfold component? at h
  split at h
  · exact absurd h (by simp)
  · split at h
    · obtain rfl := Option.some.inj h
      exact ⟨by decide, by decide⟩
    · obtain rfl := Option.some.inj h
      refine ⟨?_, ?_⟩ <;> rw [Component.text, String.toList_ofList]
      · exact hslash
      · exact hpart

theorem spelled_components (p : Path) : Spelled p.components := by
  have hplain : ∀ c ∈ (splitAt '/' p.text.toList).filterMap component?, IsPlain c := fun c hc => by
    obtain ⟨part, hpart, hc⟩ := List.mem_filterMap.mp hc
    exact isPlain_of_component? (not_mem_of_mem_splitAt hpart) hc
  rw [components_eq]
  unfold start
  split
  · exact ⟨by simp, hplain⟩
  · exact ⟨by simp, hplain⟩
  · exact .of_isPlain hplain

theorem empty_join (p : Path) : (⟨""⟩ : Path).join p = p := by simp [join]

/-- **Components with slashes between them are read off again.** -/
theorem components_intercalate (h : Spelled cs) :
    (⟨"/".intercalate (cs.map Component.text)⟩ : Path).components = cs := by
  have hbelow : ∀ (front : Path) {rest}, (∀ c ∈ rest, IsPlain c) →
      (front.join ⟨"/".intercalate (rest.map Component.text)⟩).components
        = front.components ++ rest := by
    intro front rest hrest
    rw [← render_of_isPlain hrest, components_join_render _ hrest]
  match cs with
  | [] => rfl
  | [c] =>
    rcases h.head c rfl with rfl | rfl | hc
    · decide
    · decide
    · have hone := hbelow ⟨""⟩ (List.forall_mem_singleton.mpr hc)
      rwa [empty_join] at hone
  | c :: d :: rest =>
    have hrest : ∀ x ∈ d :: rest, IsPlain x := h.tail
    have hrelative : (⟨"/".intercalate ((d :: rest).map Component.text)⟩ : Path).isAbsolute
        = false := by
      rw [← render_of_isPlain hrest]
      exact isAbsolute_render hrest
    rw [List.map_cons, List.map_cons, String.intercalate_cons_cons, ← List.map_cons]
    rcases h.head c rfl with rfl | rfl | hc
    · have hroot := hbelow ⟨"//"⟩ hrest
      rw [join, hrelative] at hroot
      exact hroot
    · have hdot := hbelow ⟨"."⟩ hrest
      rw [join, hrelative] at hdot
      exact hdot
    · have hall := hbelow ⟨""⟩ (List.forall_mem_cons.mpr ⟨hc, hrest⟩)
      rwa [empty_join, List.map_cons, List.map_cons, String.intercalate_cons_cons,
        ← List.map_cons] at hall

/-! ### The extension cut off -/

/-- A file name that is cut has a dot there, and something before it. -/
theorem cutExtension_eq_some {name : String} {extension : List Char}
    (h : cutExtension name = some (stem, extension)) :
    name.toList = stem ++ '.' :: extension ∧ stem ≠ [] := by
  unfold cutExtension at h
  dsimp only at h
  split at h
  next dot c rest hdrop =>
    obtain ⟨rfl, rfl⟩ := Prod.mk.inj (Option.some.inj h)
    have hdot : dot = '.' := by
      have hnot := List.head_dropWhile_not (· != '.') (l := name.toList.reverse) (by simp [hdrop])
      simpa [hdrop] using hnot
    have hsplit := List.takeWhile_append_dropWhile (p := (· != '.')) (l := name.toList.reverse)
    rw [hdrop, hdot] at hsplit
    exact ⟨by simpa using (congrArg List.reverse hsplit).symm, by simp⟩
  · exact absurd h (by simp)

def modelFile (stem : List Char) : Component :=
  .name (String.ofList (stem ++ '.' :: modelExtension))

theorem modelFile_inj : modelFile stem = modelFile stem' ↔ stem = stem' := by
  rw [modelFile, modelFile, Component.name.injEq, String.ofList_inj, List.append_left_inj]

/-- What is left of a model file's name, as the component that it is read as. -/
def stemComponent (stem : List Char) : Component :=
  if stem = ['.'] ∨ stem = ['.', '.'] then .parent else .name (String.ofList stem)

/-- The components of a model file: directories, and a name with the extension of model files. -/
theorem withoutExtension_eq (hmodel : p.isModelFile = true) (hp : p.components = root ++ below)
    (hbelow : below ≠ []) :
    ∃ dir stem, stem ≠ [] ∧ '/' ∉ stem ∧ below = dir ++ [modelFile stem] ∧
      withoutExtension below = dir ++ [stemComponent stem] := by
  obtain ⟨dir, last, rfl⟩ := (List.eq_nil_or_concat' below).resolve_left hbelow
  have hlast : p.components.getLast? = some last := by
    rw [hp, ← List.append_assoc, List.getLast?_concat]
  unfold isModelFile at hmodel
  rw [hlast] at hmodel
  split at hmodel
  next name heq =>
    obtain rfl := Option.some.inj heq
    rw [beq_iff_eq, Option.map_eq_some_iff] at hmodel
    obtain ⟨⟨stem, extension⟩, hcut, rfl⟩ := hmodel
    obtain ⟨hname, hstem⟩ := cutExtension_eq_some hcut
    have hslash : '/' ∉ stem := fun hmem => by
      have hin : Component.name name ∈ p.components := List.mem_of_getLast? hlast
      exact (isName_of_mem_components hin).1 (hname ▸ List.mem_append_left _ hmem)
    refine ⟨dir, stem, hstem, hslash, by rw [modelFile, ← hname, String.ofList_toList], ?_⟩
    unfold withoutExtension
    rw [List.getLast?_concat]
    simp only [hcut, List.dropLast_concat]
    congr 1
    unfold stemComponent component?
    by_cases hone : stem = ['.']
    · simp [hone]
    · by_cases htwo : stem = ['.', '.'] <;> simp [hone, htwo, hstem]
  · exact absurd hmodel (by simp)

theorem isPlain_stemComponent (hstem : stem ≠ []) (hslash : '/' ∉ stem) :
    IsPlain (stemComponent stem) := by
  unfold stemComponent
  split
  · exact ⟨by decide, by decide⟩
  next hdots =>
    rw [not_or] at hdots
    refine isPlain_of_component? hslash ?_
    simp [component?, hstem, hdots]

/-- Two stems are read alike if they are the same, or one is a dot and the other one is two. -/
theorem stemComponent_inj : stemComponent stem = stemComponent stem' ↔
    stem = stem' ∨ stem = ['.'] ∧ stem' = ['.', '.'] ∨ stem = ['.', '.'] ∧ stem' = ['.'] := by
  unfold stemComponent
  by_cases h : stem = ['.'] ∨ stem = ['.', '.'] <;> by_cases h' : stem' = ['.'] ∨ stem' = ['.', '.']
  · simp only [if_pos h, if_pos h', true_iff]
    rcases h with rfl | rfl <;> rcases h' with rfl | rfl <;> simp
  · simp only [if_pos h, if_neg h']
    grind
  · simp only [if_neg h, if_pos h']
    grind
  · simp only [if_neg h, if_neg h', Component.name.injEq, String.ofList_inj]
    grind

/-! ### Names and files -/

theorem behind?_eq_some : behind? root cs = some below ↔ cs = root ++ below := by
  induction root generalizing cs with
  | nil => simp [behind?, eq_comm]
  | cons c root ih =>
    cases cs with
    | nil => simp [behind?]
    | cons d cs =>
      by_cases hcd : c = d
      · subst hcd
        simp [behind?, ih]
      · simp [behind?, hcd, Ne.symm hcd]

/-- A model file with a name lies below the root, -/
theorem exists_below {r : Path} {name : String} (h : r.modelFileName? p = some name) :
    ∃ below, p.components = r.components ++ below := by
  unfold modelFileName? at h
  cases hbelow : behind? r.components p.components with
  | none => simp [hbelow] at h
  | some below => exact ⟨below, behind?_eq_some.mp hbelow⟩

/-- and the name is what lies there, without the extension. -/
theorem modelFileName?_eq_some_iff {r : Path} {name : String}
    (h : p.components = r.components ++ below) :
    r.modelFileName? p = some name ↔
      p.isModelFile = true ∧
      "/".intercalate ((withoutExtension below).map Component.text) = name := by
  unfold modelFileName?
  rw [behind?_eq_some.mpr h]
  cases p.isModelFile <;> simp

/-- Two model files of one directory that have nothing but dots before the extension. -/
def DotTwins (cs cs' : List Component) : Prop :=
  ∃ dir, cs = dir ++ [.name "..tmd"] ∧ cs' = dir ++ [.name "...tmd"] ∨
    cs = dir ++ [.name "...tmd"] ∧ cs' = dir ++ [.name "..tmd"]

theorem dotTwins_iff {dir' : List Component} {d : Component} : DotTwins (dir ++ [c]) (dir' ++ [d]) ↔
    dir = dir' ∧ (c = .name "..tmd" ∧ d = .name "...tmd" ∨ c = .name "...tmd" ∧
      d = .name "..tmd") := by
  simp only [DotTwins, List.append_singleton_inj]
  constructor
  · rintro ⟨_, ⟨⟨rfl, hc⟩, rfl, hd⟩ | ⟨⟨rfl, hc⟩, rfl, hd⟩⟩
    · exact ⟨rfl, .inl ⟨hc, hd⟩⟩
    · exact ⟨rfl, .inr ⟨hc, hd⟩⟩
  · rintro ⟨rfl, ⟨hc, hd⟩ | ⟨hc, hd⟩⟩
    · exact ⟨dir, .inl ⟨⟨rfl, hc⟩, rfl, hd⟩⟩
    · exact ⟨dir, .inr ⟨⟨rfl, hc⟩, rfl, hd⟩⟩

theorem dotTwins_append_iff {dir' : List Component} {d : Component} :
    DotTwins (root ++ (dir ++ [c])) (root ++ (dir' ++ [d])) ↔
    DotTwins (dir ++ [c]) (dir' ++ [d]) := by
  rw [← List.append_assoc, ← List.append_assoc, dotTwins_iff, dotTwins_iff, List.append_right_inj]

/-- The name of a model file spells its components without the extension. -/
theorem components_name (hmodel : p.isModelFile = true) (hp : p.components = root ++ below) :
    (⟨"/".intercalate ((withoutExtension below).map Component.text)⟩ : Path).components
      = withoutExtension below := by
  by_cases hbelow : below = []
  · subst hbelow
    rfl
  obtain ⟨dir, stem, hstem, hslash, hfile, hname⟩ := withoutExtension_eq hmodel hp hbelow
  have hspelled : Spelled (dir ++ [modelFile stem]) :=
    hfile ▸ (hp ▸ spelled_components p).of_append
  rw [hname]
  exact components_intercalate (hspelled.replace_last (isPlain_stemComponent hstem hslash))

/-- Without the extension, the components of twins are the same, and of no other two files. -/
theorem withoutExtension_inj (hpmodel : p.isModelFile = true) (hp : p.components = root ++ below)
    (hqmodel : q.isModelFile = true) {below' : List Component}
    (hq : q.components = root ++ below') :
    withoutExtension below = withoutExtension below' ↔ below = below' ∨ DotTwins below below' := by
  have hnil : withoutExtension [] = [] := rfl
  by_cases hbelow : below = [] <;> by_cases hbelow' : below' = []
  · simp [hbelow, hbelow']
  · obtain ⟨dir, stem, -, -, hfile, hname⟩ := withoutExtension_eq hqmodel hq hbelow'
    rw [hname, hfile, hbelow, hnil]
    simp [DotTwins]
  · obtain ⟨dir, stem, -, -, hfile, hname⟩ := withoutExtension_eq hpmodel hp hbelow
    rw [hname, hfile, hbelow', hnil]
    simp [DotTwins]
  · obtain ⟨dir, stem, -, -, hfile, hname⟩ := withoutExtension_eq hpmodel hp hbelow
    obtain ⟨dir', stem', -, -, hfile', hname'⟩ := withoutExtension_eq hqmodel hq hbelow'
    have hone : Component.name "..tmd" = modelFile ['.'] := by decide
    have htwo : Component.name "...tmd" = modelFile ['.', '.'] := by decide
    rw [hname, hname', hfile, hfile', dotTwins_iff, hone, htwo, List.append_singleton_inj,
      List.append_singleton_inj, stemComponent_inj, ← and_or_left]
    simp only [modelFile_inj]

/-- **The name of a model file settles where it lies below the root**, but for twins. -/
theorem modelFileName?_eq_iff {r : Path} {below' : List Component} {name name' : String}
    (hp : r.modelFileName? p = some name) (hq : r.modelFileName? q = some name')
    (hbelow : p.components = r.components ++ below)
    (hbelow' : q.components = r.components ++ below') :
    name = name' ↔ below = below' ∨ DotTwins below below' := by
  obtain ⟨hpmodel, rfl⟩ := (modelFileName?_eq_some_iff hbelow).mp hp
  obtain ⟨hqmodel, rfl⟩ := (modelFileName?_eq_some_iff hbelow').mp hq
  rw [← withoutExtension_inj hpmodel hbelow hqmodel hbelow']
  refine ⟨fun h => ?_, fun h => by rw [h]⟩
  rw [← components_name hpmodel hbelow, ← components_name hqmodel hbelow', h]

example : (⟨"/m"⟩ : Path).modelFileName? ⟨"/m/..tmd"⟩ = some ".." ∧
    (⟨"/m"⟩ : Path).modelFileName? ⟨"/m/...tmd"⟩ = some ".." := by
  decide

theorem components_descend {names : List String} (h : ∀ name ∈ names, IsName name) :
    ∀ r : Path, (r.descend names).components = r.components ++ names.map .name := by
  induction names with
  | nil => exact fun r => (List.append_nil _).symm
  | cons name names ih =>
    intro r
    obtain ⟨hname, hnames⟩ := List.forall_mem_cons.mp h
    have hdescend := ih hnames (r.join ⟨name⟩)
    rwa [components_join r hname, List.append_assoc] at hdescend

/-- Files that plain names lead to are told apart by their names, but for twins. -/
theorem modelFileName?_descend_eq_iff {r : Path} {names names' : List String} {name name' : String}
    (hplain : ∀ n ∈ names, IsName n) (hplain' : ∀ n ∈ names', IsName n) (hne : names ≠ [])
    (hne' : names' ≠ [])
    (hp : r.modelFileName? (r.descend names) = some name)
    (hq : r.modelFileName? (r.descend names') = some name') :
    name = name' ↔ names = names' ∨
    DotTwins (r.descend names).components (r.descend names').components := by
  have hmap : names.map Component.name = names'.map Component.name ↔ names = names' :=
    List.map_inj_right fun _ _ => Component.name.inj
  rw [modelFileName?_eq_iff hp hq (components_descend hplain r) (components_descend hplain' r),
    hmap, components_descend hplain, components_descend hplain']
  obtain ⟨dir, last, rfl⟩ := (List.eq_nil_or_concat' names).resolve_left hne
  obtain ⟨dir', last', rfl⟩ := (List.eq_nil_or_concat' names').resolve_left hne'
  rw [List.map_append, List.map_append, List.map_singleton, List.map_singleton, dotTwins_append_iff]

end Path

end EntityModel
