import EntityModel.Disk.Basic
import EntityModel.Path.Basic
import Mathlib.Data.List.Induction

/-!
# Normal forms and places

An absolute path that leads somewhere on a disk leads to the place that its normal form spells
(`normalize_of_locate`), so paths of different normal forms never meet.  The names in a path are
plain ones, and walking such names down from a path puts them behind its normal form
(`normalize_descend`).
-/

namespace EntityModel

/-! ### Splitting -/

section Splitting

variable {c : Char}

theorem splitAt_ne_nil (c : Char) (text : List Char) : splitAt c text ≠ [] := by
  cases text with
  | nil => exact List.cons_ne_nil _ _
  | cons x rest =>
    rw [splitAt]
    split
    · exact List.cons_ne_nil _ _
    · split <;> exact List.cons_ne_nil _ _

theorem eq_nil_of_splitAt {text : List Char} (h : splitAt c text = [[]]) : text = [] := by
  cases text with
  | nil => rfl
  | cons x rest =>
    rw [splitAt] at h
    split at h
    · exact absurd (List.cons.inj h).2 (splitAt_ne_nil c rest)
    · split at h <;> simp at h

theorem splitAt_of_not_mem {text : List Char} (h : c ∉ text) : splitAt c text = [text] := by
  induction text with
  | nil => rfl
  | cons x rest ih =>
    rw [List.mem_cons, not_or] at h
    have hx : (x == c) = false := beq_eq_false_iff_ne.mpr (Ne.symm h.1)
    rw [splitAt, hx, ih h.2]
    rfl

theorem splitAt_append (c : Char) (text behind : List Char) :
    splitAt c (text ++ c :: behind) = splitAt c text ++ splitAt c behind := by
  induction text with
  | nil => simp [splitAt]
  | cons x rest ih =>
    rw [List.cons_append, splitAt, splitAt, ih]
    by_cases hx : (x == c) = true
    · rw [if_pos hx, if_pos hx]
      rfl
    · rw [if_neg hx, if_neg hx]
      cases hrest : splitAt c rest with
      | nil => exact absurd hrest (splitAt_ne_nil c rest)
      | cons part parts => rfl

theorem not_mem_of_mem_splitAt {text part : List Char} (h : part ∈ splitAt c text) : c ∉ part := by
  induction text generalizing part with
  | nil =>
    rw [List.mem_singleton.mp h]
    exact List.not_mem_nil
  | cons x rest ih =>
    rw [splitAt] at h
    by_cases hx : (x == c) = true
    · rw [if_pos hx, List.mem_cons] at h
      rcases h with rfl | h
      · exact List.not_mem_nil
      · exact ih h
    · rw [if_neg hx] at h
      cases hrest : splitAt c rest with
      | nil => exact absurd hrest (splitAt_ne_nil c rest)
      | cons first parts =>
        rw [hrest, List.mem_cons] at h
        rcases h with rfl | h
        · rw [List.mem_cons, not_or]
          exact ⟨fun hc => hx (beq_iff_eq.mpr hc.symm), ih (hrest ▸ List.mem_cons_self)⟩
        · exact ih (hrest ▸ List.mem_cons_of_mem _ h)

end Splitting

namespace Path

/-! ### Components -/

theorem components_eq (p : Path) : p.components
    = start (splitAt '/' p.text.toList) ++ (splitAt '/' p.text.toList).filterMap component? := rfl

/-- A name that one component is read from. -/
def IsName (name : String) : Prop := '/' ∉ name.toList ∧ component? name.toList = some (.name name)

instance : DecidablePred IsName := fun name =>
  inferInstanceAs (Decidable ('/' ∉ name.toList ∧ component? name.toList = some (.name name)))

theorem isName_of_mem_components {p : Path} {name : String}
    (h : Component.name name ∈ p.components) :
    IsName name := by
  have hpart : ∃ part ∈ splitAt '/' p.text.toList, component? part = some (.name name) := by
    rcases List.mem_append.mp h with h | h
    · unfold start at h
      split at h <;> simp at h
    · exact List.mem_filterMap.mp h
  obtain ⟨part, hpart, hname⟩ := hpart
  have htext : name.toList = part := by
    unfold component? at hname
    split at hname
    · exact absurd hname (by simp)
    · split at hname
      · exact absurd hname (by simp)
      · rw [← Component.name.inj (Option.some.inj hname), String.toList_ofList]
  refine ⟨?_, ?_⟩ <;> rw [htext]
  · exact not_mem_of_mem_splitAt hpart
  · exact hname

theorem component?_ne_root (part : List Char) : component? part ≠ some .root := by
  unfold component?
  split
  · simp
  · split <;> simp

/-- An absolute path starts at the root and does not come back to it. -/
theorem components_of_isAbsolute {p : Path} (h : p.isAbsolute = true) :
    ∃ rest, p.components = .root :: rest ∧ .root ∉ rest := by
  unfold isAbsolute at h
  obtain ⟨behind, htext⟩ : ∃ behind, p.text.toList = '/' :: behind := by
    cases hchars : p.text.toList with
    | nil => simp [hchars] at h
    | cons c behind => exact ⟨behind, by simpa [hchars] using h⟩
  refine ⟨(splitAt '/' behind).filterMap component?, ?_, fun hroot => ?_⟩
  · unfold components
    rw [htext, splitAt, if_pos (beq_self_eq_true _)]
    cases hparts : splitAt '/' behind with
    | nil => exact absurd hparts (splitAt_ne_nil _ _)
    | cons part parts => rfl
  · obtain ⟨part, -, hpart⟩ := List.mem_filterMap.mp hroot
    exact component?_ne_root part hpart

/-- How a path starts shows in its first part, unless that is all and empty. -/
theorem start_append {parts : List (List Char)} (hparts : parts ≠ []) (hempty : parts ≠ [[]])
    (part : List Char) : start (parts ++ [part]) = start parts := by
  match parts with
  | [[]] => exact absurd rfl hempty
  | [x :: xs] =>
    rw [List.singleton_append]
    unfold start
    split <;> simp_all
  | first :: second :: more =>
    rw [List.cons_append, List.cons_append]
    unfold start
    split <;> simp_all

/-- What stands behind the first part does not matter, if there is something. -/
theorem start_concat {parts : List (List Char)} (hparts : parts ≠ []) (part part' : List Char) :
    start (parts ++ [part]) = start (parts ++ [part']) := by
  by_cases hempty : parts = [[]]
  · rw [hempty]
    rfl
  · rw [start_append hparts hempty, start_append hparts hempty]

/-- A part without slashes below a path is one more component, or nothing if it is empty. -/
theorem components_join_part (p : Path) {part : String} (hslash : '/' ∉ part.toList)
    (hdot : part.toList ≠ ['.']) :
    (p.join ⟨part⟩).components = p.components ++ (component? part.toList).toList := by
  have hsplit : splitAt '/' part.toList = [part.toList] := splitAt_of_not_mem hslash
  have hlast : [part.toList].filterMap component? = (component? part.toList).toList := by
    cases h : component? part.toList <;> simp [h]
  have hrelative : (⟨part⟩ : Path).isAbsolute = false := by
    rw [isAbsolute, beq_eq_false_iff_ne]
    exact fun hhead => hslash (List.mem_of_mem_head? hhead)
  unfold join
  rw [hrelative, Bool.false_or]
  by_cases hempty : p.text.isEmpty = true
  · have hnone : p.components = [] := by
      rw [components_eq, String.isEmpty_iff.mp hempty]
      rfl
    have hstart : start [part.toList] = [] := by
      unfold start
      split <;> simp_all
    rw [if_pos hempty, hnone, components_eq, hsplit, hstart, hlast]
  rw [if_neg hempty]
  by_cases hend : (p.text.toList.getLast? == some '/') = true
  · obtain ⟨front, hfront⟩ : ∃ front, p.text.toList = front ++ ['/'] :=
      ⟨_, (List.getLast?_eq_some_iff.mp (beq_iff_eq.mp hend)).choose_spec⟩
    have hparts : splitAt '/' p.text.toList = splitAt '/' front ++ [[]] := by
      rw [hfront, splitAt_append]
      rfl
    have hjoined : splitAt '/' (p.text ++ part).toList = splitAt '/' front ++ [part.toList] := by
      rw [String.toList_append, hfront, List.append_assoc, List.singleton_append,
        splitAt_append, hsplit]
    rw [if_pos hend, components_eq, components_eq, hparts, hjoined,
      start_concat (splitAt_ne_nil _ _) part.toList [], List.filterMap_append,
      List.filterMap_append, hlast, List.append_assoc]
    simp [component?]
  · have hparts : splitAt '/' p.text.toList ≠ [[]] := fun hnil => by
      refine hempty (String.isEmpty_iff.mpr (String.toList_eq_nil_iff.mp (eq_nil_of_splitAt hnil)))
    have hjoined : splitAt '/' (p.text ++ "/" ++ part).toList = splitAt '/' p.text.toList
      ++ [part.toList] := by
      rw [String.toList_append, String.toList_append, List.append_assoc, ← hsplit]
      exact splitAt_append '/' _ _
    rw [if_neg hend, components_eq, components_eq, hjoined,
      start_append (splitAt_ne_nil _ _) hparts, List.filterMap_append, hlast, List.append_assoc]

theorem components_join (p : Path) {name : String} (h : IsName name) :
    (p.join ⟨name⟩).components = p.components ++ [.name name] := by
  have hdot : name.toList ≠ ['.'] := fun hdot => by
    have hname := h.2
    rw [hdot] at hname
    exact absurd hname (by simp [component?])
  rw [components_join_part p h.1 hdot, h.2]
  rfl

theorem isAbsolute_join {base : Path} (h : base.isAbsolute = true) (p : Path) :
    (base.join p).isAbsolute = true := by
  have hhead : ∀ behind, (⟨base.text ++ behind⟩ : Path).isAbsolute = true := fun behind => by
    rw [isAbsolute, beq_iff_eq] at h ⊢
    rw [String.toList_append, List.head?_append, h]
    rfl
  unfold join
  by_cases hp : p.isAbsolute = true
  · simp [hp]
  · have hempty : base.text.isEmpty = false := by
      rw [Bool.eq_false_iff]
      intro hempty
      rw [isAbsolute, String.isEmpty_iff.mp hempty] at h
      exact absurd h (by simp)
    simp only [hp, hempty, Bool.false_eq_true, Bool.or_self, if_false]
    split
    · exact hhead _
    · rw [String.append_assoc]
      exact hhead _

/-! ### Normal forms -/

theorem normalize_join (p : Path) {name : String} (h : IsName name) :
    (p.join ⟨name⟩).normalize = p.normalize ++ [.name name] := by
  rw [normalize, components_join p h, List.foldl_append]
  rfl

/-- The path that goes down these names from another. -/
def descend (p : Path) (names : List String) : Path := names.foldl (fun p name => p.join ⟨name⟩) p

theorem isAbsolute_descend {p : Path} (h : p.isAbsolute = true) (names : List String) :
    (p.descend names).isAbsolute = true := by
  induction names generalizing p with
  | nil => exact h
  | cons name names ih => exact ih (isAbsolute_join h ⟨name⟩)

/-- **Going down plain names puts them behind the normal form.** -/
theorem normalize_descend {names : List String} (h : ∀ name ∈ names, IsName name) :
    ∀ p : Path, (p.descend names).normalize = p.normalize ++ names.map .name := by
  induction names with
  | nil => exact fun p => (List.append_nil _).symm
  | cons name names ih =>
    intro p
    have hnames := ih (fun other hother => h other (List.mem_cons_of_mem _ hother)) (p.join ⟨name⟩)
    rw [normalize_join p (h name List.mem_cons_self), List.append_assoc] at hnames
    exact hnames

theorem mem_pushNormal {done : List Component} {c x : Component} (h : x ∈ pushNormal done c) :
    x ∈ done ∨ x = c := by
  unfold pushNormal at h
  split at h
  · exact Or.inl h
  · split at h
    · exact Or.inl (List.dropLast_subset _ h)
    · exact Or.inl h
    · simpa using h
  · simpa using h

theorem mem_components_of_normalize {p : Path} {c : Component} (h : c ∈ p.normalize) :
    c ∈ p.components := by
  have hfold : ∀ (cs done : List Component), c ∈ cs.foldl pushNormal done → c ∈ done ∨ c ∈ cs := by
    intro cs
    induction cs with
    | nil => exact fun done hc => Or.inl hc
    | cons x cs ih =>
      intro done hc
      rcases ih _ hc with hc | hc
      · rcases mem_pushNormal hc with hc | rfl
        · exact Or.inl hc
        · exact Or.inr List.mem_cons_self
      · exact Or.inr (List.mem_cons_of_mem _ hc)
  exact (hfold _ _ h).resolve_left List.not_mem_nil

end Path

/-! ### Places -/

/-- The normal form of the paths that lead to a place. -/
def Place.form (place : Place) : List Component := .root :: place.map .name

namespace Disk

theorem form_injective : Function.Injective Place.form := fun _ _ h =>
  (List.map_inj_right fun _ _ => Component.name.inj).mp (List.cons.inj h).2

theorem isName_of_normalize {p : Path} {place : Place} (h : p.normalize = Place.form place)
    {name : String} (hname : name ∈ place) : Path.IsName name := by
  refine Path.isName_of_mem_components (p := p) (Path.mem_components_of_normalize ?_)
  rw [h]
  exact List.mem_cons_of_mem _ (List.mem_map_of_mem hname)

theorem pushNormal_form (place : Place) :
    Path.pushNormal (Place.form place) .parent = Place.form place.dropLast := by
  cases place using List.reverseRecOn with
  | nil => rfl
  | append_singleton place name =>
    simp [Place.form, Path.pushNormal, List.getLast?_cons, List.dropLast_cons_of_ne_nil]

/-- Going down components from a place, what they spell is spelled by the place. -/
theorem foldl_of_locateFrom {d : Disk} (cs : List Component) (hroot : .root ∉ cs) :
    ∀ {start place : Place}, d.locateFrom start cs = .ok place →
      cs.foldl Path.pushNormal (Place.form start) = Place.form place := by
  induction cs with
  | nil =>
    intro start place h
    rw [Except.ok.inj h]
    rfl
  | cons c cs ih =>
    rw [List.mem_cons, not_or] at hroot
    intro start place h
    rw [List.foldl_cons]
    cases c with
    | root => exact absurd rfl hroot.1
    | current => exact ih hroot.2 h
    | parent =>
      rw [pushNormal_form]
      rw [locateFrom] at h
      cases hd : d.requireDirectory start with
      | error e => rw [hd] at h; exact absurd h (by simp [bind, Except.bind])
      | ok _ => 
        rw [hd] at h
        exact ih hroot.2 h
    | name name =>
      rw [locateFrom] at h
      cases hd : d.requireDirectory start with
      | error e => rw [hd] at h; exact absurd h (by simp [bind, Except.bind])
      | ok _ =>
        rw [hd] at h
        by_cases hlong : name.utf8ByteSize > nameLimit
        · simp [hlong, bind, Except.bind] at h
        · simp only [hlong, bind, Except.bind, if_false] at h
          rw [← ih hroot.2 h]
          simp [Place.form, Path.pushNormal]

/-- **An absolute path leads to the place that its normal form spells.** -/
theorem normalize_of_locate {d : Disk} {p : Path} {place : Place} (hp : p.isAbsolute = true)
    (h : d.locate p = .ok place) : p.normalize = Place.form place := by
  obtain ⟨cs, hcs, hroot⟩ := Path.components_of_isAbsolute hp
  unfold locate locateAll at h
  split at h
  · exact absurd h (by simp)
  · rw [hcs] at h
    rw [Path.normalize, hcs]
    exact foldl_of_locateFrom cs hroot h

end Disk

end EntityModel
