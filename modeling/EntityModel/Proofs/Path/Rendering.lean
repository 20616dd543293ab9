import EntityModel.Proofs.Path.NormalForms
import Mathlib.Data.List.Chain

/-!
# Normal forms and their texts

In a normal form the root stands at the start at most, and `..` behind nothing but `..` (`Normal`).
So no component of it takes another one back: put one by one behind a part of the form, they give
the form (`Normal.foldl_pushNormal`).

Other than the root, a component is read off its own text again.  Hence what a list of them is
rendered to puts them behind the components of any path that it is joined to
(`components_join_render`), and an absolute path is given back by what its normal form is rendered
to (`normalize_join_render_absolute`).
-/

namespace EntityModel

/-- What may stand next to each other in a normal form. -/
def Component.Precedes (a : Component) : Component → Prop
  | .name _ => True
  | .parent => a = .parent
  | _ => False

namespace Path

/-- No component takes back another one, or stands for nothing. -/
structure Normal (cs : List Component) : Prop where
  chain : cs.IsChain Component.Precedes
  current : cs.head? ≠ some .current

variable {cs done rest : List Component} {c : Component} {p root : Path}

/-! ### Normal forms -/

theorem Normal.of_append (h : Normal (done ++ cs)) : Normal done where
  chain := h.chain.left_of_append
  current hhead := h.current (by rw [List.head?_append, hhead, Option.some_or])

theorem Normal.precedes (h : Normal (done ++ c :: cs)) {a : Component}
    (ha : done.getLast? = some a) :
    a.Precedes c :=
  (List.isChain_append.mp h.chain).2.2 a ha c rfl

theorem Normal.pushNormal_eq (h : Normal (done ++ [c])) : pushNormal done c = done ++ [c] := by
  cases c with
  | root | name => rfl
  | current =>
    cases hlast : done.getLast? with
    | none =>
      rw [List.getLast?_eq_none_iff.mp hlast] at h
      exact absurd rfl h.current
    | some a => exact (h.precedes hlast).elim
  | parent =>
    cases hlast : done.getLast? with
    | none => simp [pushNormal, hlast]
    | some a =>
      obtain rfl : a = .parent := h.precedes hlast
      simp [pushNormal, hlast]

/-- **Components of a normal form are put behind those before them.** -/
theorem Normal.foldl_pushNormal (h : Normal (done ++ cs)) :
    cs.foldl pushNormal done = done ++ cs := by
  induction cs generalizing done with
  | nil => exact (List.append_nil _).symm
  | cons c cs ih =>
    rw [List.append_cons] at h ⊢
    rw [List.foldl_cons, h.of_append.pushNormal_eq, ih h]

theorem Normal.concat (h : Normal done) (hc : c ≠ .current)
    (hlast : ∀ a, done.getLast? = some a → a.Precedes c) :
    Normal (done ++ [c]) where
  chain := List.isChain_append.mpr ⟨h.chain, .singleton c, fun a ha b hb => by
    obtain rfl := Option.some.inj hb
    exact hlast a ha⟩
  current hhead := by
    cases done with
    | nil => exact hc (Option.some.inj hhead)
    | cons d done => exact h.current hhead

/-- One more component leaves a normal form, if the root comes first. -/
theorem Normal.pushNormal (h : Normal done) (hroot : c ≠ .root) : Normal (pushNormal done c) := by
  cases c with
  | root => exact absurd rfl hroot
  | current => exact h
  | name text => exact h.concat (by simp) fun _ _ => trivial
  | parent =>
    simp only [Path.pushNormal]
    split
    next text hlast =>
      have hdone := List.dropLast_append_getLast? _ hlast
      exact Normal.of_append (hdone.symm ▸ h)
    · exact h
    next hname hother =>
      refine h.concat (by simp) fun a ha => ?_
      cases a with
      | parent => rfl
      | root => exact absurd ha hother
      | name text => exact absurd ha (hname text)
      | current =>
        -- it would stand for nothing
        obtain ⟨front, rfl⟩ := List.getLast?_eq_some_iff.mp ha
        cases hfront : front.getLast? with
        | none =>
          rw [List.getLast?_eq_none_iff.mp hfront] at h
          exact absurd rfl h.current
        | some b => exact (h.precedes hfront).elim

theorem Normal.foldl (h : Normal done) (hroot : .root ∉ cs) :
    Normal (cs.foldl Path.pushNormal done) := by
  induction cs generalizing done with
  | nil => exact h
  | cons c cs ih =>
    rw [List.mem_cons, not_or] at hroot
    exact ih (h.pushNormal (Ne.symm hroot.1)) hroot.2

theorem isAbsolute_of_root_mem (h : .root ∈ p.components) : p.isAbsolute = true := by
  rcases List.mem_append.mp h with h | h
  · unfold start at h
    split at h
    next first second hparts =>
      cases htext : p.text.toList with
      | nil =>
        rw [htext] at hparts
        simp [splitAt] at hparts
      | cons x behind =>
        by_cases hx : (x == '/') = true
        · rw [isAbsolute, htext, beq_iff_eq.mp hx]
          rfl
        · rw [htext, splitAt, if_neg hx] at hparts
          cases hbehind : splitAt '/' behind <;> rw [hbehind] at hparts <;> simp at hparts
    all_goals simp at h
  · obtain ⟨part, -, hpart⟩ := List.mem_filterMap.mp h
    exact absurd hpart (component?_ne_root part)

/-- **The normal form of a path is one.** -/
theorem normal_normalize (p : Path) : Normal p.normalize := by
  by_cases habs : p.isAbsolute = true
  · obtain ⟨rest, hcomponents, hroot⟩ := components_of_isAbsolute habs
    have hstart : Normal [.root] := ⟨.singleton _, by simp⟩
    rw [normalize, hcomponents]
    exact hstart.foldl hroot
  · exact Normal.foldl ⟨.nil, by simp⟩ fun hroot => habs (isAbsolute_of_root_mem hroot)

theorem head?_pushNormal (h : done.head? = some .root) :
    (pushNormal done c).head? = some .root := by
  obtain ⟨rest, rfl⟩ := List.head?_eq_some_iff.mp h
  unfold pushNormal
  split
  · rfl
  · split
    next text hlast =>
      cases rest with
      | nil => simp at hlast
      | cons d rest => rfl
    · rfl
    · rfl
  · rfl

/-- **A normal form starts at the root if the path is absolute**, and only then. -/
theorem head?_normalize : p.normalize.head? = some .root ↔ p.isAbsolute = true := by
  constructor
  · intro h
    exact isAbsolute_of_root_mem (mem_components_of_normalize (List.mem_of_mem_head? h))
  · intro habs
    obtain ⟨rest, hcomponents, -⟩ := components_of_isAbsolute habs
    rw [normalize, hcomponents, List.foldl_cons]
    have hfold : ∀ (cs done : List Component), done.head? = some .root →
        (cs.foldl pushNormal done).head? = some .root := by
      intro cs
      induction cs with
      | nil => exact fun _ h => h
      | cons c cs ih => exact fun _ h => ih _ (head?_pushNormal h)
    exact hfold rest _ rfl

/-- Behind the first component of a normal form there are names and `..` only. -/
theorem exists_precedes (h : (c :: rest).IsChain Component.Precedes) {x : Component}
    (hx : x ∈ rest) :
    ∃ a, Component.Precedes a x := by
  induction rest generalizing c with
  | nil => exact absurd hx List.not_mem_nil
  | cons d rest ih =>
    obtain ⟨hcd, hrest⟩ := List.isChain_cons_cons.mp h
    rcases List.mem_cons.mp hx with rfl | hx
    · exact ⟨c, hcd⟩
    · exact ih hrest hx

theorem head?_of_parent_mem (h : cs.IsChain Component.Precedes) (hparent : .parent ∈ cs) :
    cs.head? = some .parent := by
  induction cs with
  | nil => exact absurd hparent List.not_mem_nil
  | cons c cs ih =>
    rcases List.mem_cons.mp hparent with rfl | hparent
    · rfl
    · obtain ⟨hhead, hcs⟩ := List.isChain_cons.mp h
      exact congrArg some (hhead .parent (ih hcs hparent))

/-! ### Components as texts -/

/-- The component is read off its own text. -/
def IsPlain (c : Component) : Prop := '/' ∉ c.text.toList ∧ component? c.text.toList = some c

/-- **All components of a normal form but the root are read off their texts.** -/
theorem isPlain_of_mem_normalize (hc : c ∈ p.normalize) (hroot : c ≠ .root) : IsPlain c := by
  cases c with
  | root => exact absurd rfl hroot
  | parent => exact ⟨by decide, by decide⟩
  | name text => exact isName_of_mem_components (mem_components_of_normalize hc)
  | current =>
    have hnormal := normal_normalize p
    cases hform : p.normalize with
    | nil => rw [hform] at hc; exact absurd hc List.not_mem_nil
    | cons first rest =>
      rw [hform] at hnormal hc
      rcases List.mem_cons.mp hc with rfl | hc
      · exact absurd rfl hnormal.current
      · obtain ⟨a, ha⟩ := exists_precedes hnormal.chain hc
        exact ha.elim

theorem IsPlain.ne_root (h : IsPlain c) : c ≠ .root := by
  rintro rfl
  exact h.1 (by decide)

theorem IsPlain.text_ne (h : IsPlain c) : c.text.toList ≠ [] ∧ c.text.toList ≠ ['.'] := by
  constructor <;> intro htext <;> have hc := h.2 <;> rw [htext] at hc <;> simp [component?] at hc

theorem render_of_isPlain (h : ∀ c ∈ cs, IsPlain c) :
    render cs = "/".intercalate (cs.map Component.text) := by
  unfold render
  split
  · exact absurd rfl (h _ List.mem_cons_self).ne_root
  · rfl

theorem render_cons_cons {d : Component} (h : ∀ x ∈ c :: d :: cs, IsPlain x) :
    render (c :: d :: cs) = c.text ++ "/" ++ render (d :: cs) := by
  rw [render_of_isPlain h, render_of_isPlain fun x hx => h x (List.mem_cons_of_mem _ hx)]
  exact String.intercalate_cons_cons

theorem render_root (h : ∀ c ∈ cs, IsPlain c) : render (.root :: cs) = "/" ++ render cs := by
  rw [render_of_isPlain h]
  rfl

theorem isAbsolute_append {part : String} (hslash : '/' ∉ part.toList) (hne : part.toList ≠ [])
    (behind : String) :
    (⟨part ++ behind⟩ : Path).isAbsolute = false := by
  rw [isAbsolute, beq_eq_false_iff_ne, String.toList_append, List.head?_append_of_ne_nil _ hne]
  exact fun hhead => hslash (List.mem_of_mem_head? hhead)

theorem isAbsolute_render (h : ∀ c ∈ cs, IsPlain c) : (⟨render cs⟩ : Path).isAbsolute = false := by
  match cs with
  | [] => rfl
  | [c] =>
    have hc := h c List.mem_cons_self
    have happend := isAbsolute_append hc.1 hc.text_ne.1 ""
    rw [String.append_empty] at happend
    rw [render_of_isPlain h]
    simpa using happend
  | c :: d :: cs =>
    have hc := h c List.mem_cons_self
    rw [render_cons_cons h, String.append_assoc]
    exact isAbsolute_append hc.1 hc.text_ne.1 _

/-- Joining puts one and the same text before all relative paths. -/
theorem exists_join_eq (root : Path) :
    ∃ front : String, ∀ q : Path, q.isAbsolute = false → root.join q = ⟨front ++ q.text⟩ := by
  unfold join
  by_cases hempty : root.text.isEmpty = true
  · exact ⟨"", fun q hq => by rw [hq, hempty]; simp⟩
  · by_cases hend : (root.text.toList.getLast? == some '/') = true
    · exact ⟨root.text, fun q hq => by simp [hq, hempty, hend]⟩
    · exact ⟨root.text ++ "/", fun q hq => by simp [hq, hempty, hend]⟩

/-- Joining a path of several parts is joining the first one, and the others to that. -/
theorem join_part (root : Path) {part : String} (hslash : '/' ∉ part.toList)
    (hne : part.toList ≠ []) {q : Path} (hq : q.isAbsolute = false) :
    root.join ⟨part ++ "/" ++ q.text⟩ = (root.join ⟨part⟩).join q := by
  obtain ⟨front, hfront⟩ := exists_join_eq root
  have hpart : (⟨part⟩ : Path).isAbsolute = false := by
    have happend := isAbsolute_append hslash hne ""
    rwa [String.append_empty] at happend
  rw [String.append_assoc, hfront _ (isAbsolute_append hslash hne _), hfront _ hpart, join, hq]
  have hempty : (front ++ part).isEmpty = false := by
    rw [Bool.eq_false_iff, ne_eq, String.isEmpty_iff, ← String.toList_eq_nil_iff,
      String.toList_append]
    simp [hne]
  have hend : ((front ++ part).toList.getLast? == some '/') = false := by
    rw [beq_eq_false_iff_ne, String.toList_append, List.getLast?_append_of_ne_nil _ hne]
    exact fun hlast => hslash (List.mem_of_getLast? hlast)
  simp only [hempty, hend, Bool.or_self, Bool.false_eq_true, if_false, String.append_assoc]

/-- **Joining what components are rendered to puts them behind those of the path.** -/
theorem components_join_render (root : Path) (h : ∀ c ∈ cs, IsPlain c) :
    (root.join ⟨render cs⟩).components = root.components ++ cs := by
  induction cs generalizing root with
  | nil =>
    have hnone :=
      components_join_part root (show '/' ∉ "".toList by simp) (show "".toList ≠ ['.'] by simp)
    exact hnone
  | cons c cs ih =>
    have hc := h c List.mem_cons_self
    have hone : (root.join ⟨c.text⟩).components = root.components ++ [c] := by
      rw [components_join_part root hc.1 hc.text_ne.2, hc.2]
      rfl
    cases cs with
    | nil =>
      rw [render_of_isPlain h]
      simpa using hone
    | cons d cs =>
      have hcs : ∀ x ∈ d :: cs, IsPlain x := fun x hx => h x (List.mem_cons_of_mem _ hx)
      rw [render_cons_cons h, join_part root hc.1 hc.text_ne.1 (isAbsolute_render hcs),
        ih _ hcs, hone, List.append_assoc, List.singleton_append]

theorem normalize_join_render (root : Path) (h : ∀ c ∈ cs, IsPlain c) :
    (root.join ⟨render cs⟩).normalize = cs.foldl pushNormal root.normalize := by
  rw [normalize, components_join_render root h, List.foldl_append]
  rfl

/-- **An absolute path is given back by its normal form**, whatever it is joined to. -/
theorem normalize_join_render_absolute (root : Path) (h : p.isAbsolute = true) :
    (root.join ⟨render p.normalize⟩).normalize = p.normalize := by
  obtain ⟨rest, hform⟩ := List.head?_eq_some_iff.mp (head?_normalize.mpr h)
  have hnormal := normal_normalize p
  rw [hform] at hnormal ⊢
  have hplain : ∀ c ∈ rest, IsPlain c := fun c hc => by
    refine isPlain_of_mem_normalize (p := p) (hform ▸ List.mem_cons_of_mem _ hc) ?_
    rintro rfl
    obtain ⟨a, ha⟩ := exists_precedes hnormal.chain hc
    exact ha.elim
  have habs : (⟨render (.root :: rest)⟩ : Path).isAbsolute = true := by
    rw [render_root hplain, isAbsolute, String.toList_append]
    rfl
  have hjoin : root.join ⟨render (.root :: rest)⟩ = (⟨"/"⟩ : Path).join ⟨render rest⟩ := by
    rw [join, habs, Bool.true_or, if_pos rfl, render_root hplain, join, isAbsolute_render hplain]
    rfl
  have hbehind : Normal ([.root] ++ rest) := hnormal
  rw [hjoin, normalize_join_render _ hplain]
  exact hbehind.foldl_pushNormal

end Path

end EntityModel
