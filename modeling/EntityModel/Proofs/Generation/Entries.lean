import EntityModel.Proofs.Generation.Pruning
import EntityModel.Proofs.Path.Rendering

/-!
# What entries of a lock file stand for

An entry names a path as it is seen from the root: up from the root to what both have in common, and
down again. Joined to the root it leads back, since each step up takes back a name of the root
(`normalize_join_relativeName`).

Where no such way can be written down the entry is the normal form of the path itself.  An absolute
one leads back as well.  A relative one is taken to start at the root all the same, and never leads
back: neither from an absolute root nor from one that goes up further than the path does
(`resolveEntry_relativeName_iff`).
-/

namespace EntityModel.Path

variable {root p : Path} {front up down : List Component}

/-- Two lists have a part in common, and go on in different ways behind it. -/
theorem exists_common (as bs : List Component) :
    ∃ front as' bs', as = front ++ as' ∧ bs = front ++ bs' ∧ commonLength as bs = front.length ∧
      ∀ c, as'.head? = some c → bs'.head? ≠ some c := by
  fun_induction commonLength as bs with
  | case1 a as b bs he ih =>
    obtain ⟨front, as', bs', rfl, rfl, hlength, hdiffer⟩ := ih
    obtain rfl := beq_iff_eq.mp he
    exact ⟨a :: front, as', bs', rfl, rfl, congrArg (· + 1) hlength, hdiffer⟩
  | case2 a as b bs he =>
    refine ⟨[], a :: as, b :: bs, rfl, rfl, rfl, fun c ha hb => he ?_⟩
    rw [beq_iff_eq]
    exact (Option.some.inj ha).trans (Option.some.inj hb).symm
  | case3 as bs hnot =>
    refine ⟨[], as, bs, rfl, rfl, rfl, fun c ha hb => ?_⟩
    obtain ⟨as', rfl⟩ := List.head?_eq_some_iff.mp ha
    obtain ⟨bs', rfl⟩ := List.head?_eq_some_iff.mp hb
    exact hnot c as' c bs' rfl rfl

/-! ### Steps up -/

/-- As many steps up as there are names take all of them back. -/
theorem foldl_parents (front : List Component) {names : List Component}
    (h : ∀ c ∈ names, ∃ text, c = .name text) :
    (List.replicate names.length .parent).foldl pushNormal (front ++ names) = front := by
  induction names using List.reverseRecOn with
  | nil => exact List.append_nil _
  | append_singleton names c ih =>
    obtain ⟨text, rfl⟩ := h c (List.mem_append_right _ (List.mem_singleton_self _))
    have hback : pushNormal (front ++ (names ++ [.name text])) .parent = front ++ names := by
      rw [← List.append_assoc]
      simp [pushNormal]
    rw [List.length_append, List.length_singleton, List.replicate_succ, List.foldl_cons, hback,
      ih fun d hd => h d (List.mem_append_left _ hd)]

theorem count_parent_foldl (cs done : List Component) :
    done.count .parent ≤ (cs.foldl pushNormal done).count .parent := by
  induction cs generalizing done with
  | nil => exact Nat.le_refl _
  | cons c cs ih =>
    refine Nat.le_trans ?_ (ih _)
    unfold pushNormal
    split
    · exact Nat.le_refl _
    · split
      next text hlast =>
        have hdone := List.dropLast_append_getLast? _ hlast
        conv_lhs => rw [← hdone]
        simp
      · exact Nat.le_refl _
      · simp
    · simp

theorem IsPlain.parent_or_name {c : Component} (h : IsPlain c) :
    c = .parent ∨ ∃ text, c = .name text := by
  cases c with
  | root => exact absurd rfl h.ne_root
  | current => exact absurd rfl h.text_ne.2
  | parent => exact Or.inl rfl
  | name text => exact Or.inr ⟨text, rfl⟩

/-- Behind a part of a normal form there is no root, unless it comes first. -/
theorem root_not_mem_of_normal {behind : List Component} (h : Normal (front ++ behind))
    (hhead : front = [] → behind.head? ≠ some .root) : .root ∉ behind := by
  intro hroot
  have hlater : ∀ {c : Component} {rest : List Component}, (c :: rest).IsChain Component.Precedes →
      .root ∈ rest → False := fun hchain hmem => (exists_precedes hchain hmem).elim fun _ ha => ha
  cases front with
  | cons c front => exact hlater h.chain (List.mem_append_right _ hroot)
  | nil =>
    cases behind with
    | nil => exact absurd hroot List.not_mem_nil
    | cons c behind =>
      rcases List.mem_cons.mp hroot with rfl | hroot
      · exact hhead rfl rfl
      · exact hlater h.chain hroot

/-! ### What entries are -/

/-- The test by which a root and a path are found to have nothing to do with each other. -/
theorem head?_isRoot (h : p.normalize ≠ []) : p.normalize.head?.map isRoot = some p.isAbsolute := by
  cases hhead : p.normalize.head? with
  | none => exact absurd (List.head?_eq_none_iff.mp hhead) h
  | some c =>
    rw [Option.map_some, Option.some_inj, Bool.eq_iff_iff, ← head?_normalize, hhead,
      isRoot, beq_iff_eq, Option.some_inj]

/-- Seen from a root that is absolute where the path is not, or the other way round, a path stays as
it is. -/
theorem relativeName_of_isAbsolute_ne (hne : p.normalize ≠ [])
    (h : root.isAbsolute ≠ p.isAbsolute) :
    root.relativeName p = render p.normalize := by
  have hheads : root.normalize.head?.map isRoot ≠ p.normalize.head?.map isRoot := by
    rw [head?_isRoot hne]
    by_cases hempty : root.normalize = []
    · simp [hempty]
    · rw [head?_isRoot hempty]
      exact fun he => h (Option.some.inj he)
  unfold relativeName
  simp only [bne_iff_ne.mpr hheads, Bool.true_or, if_true]

/-- So does a path that the root has to be left for by steps that go up already. -/
theorem relativeName_of_parent_mem (hbase : root.normalize = front ++ up)
    (hcommon : commonLength root.normalize p.normalize = front.length) (h : .parent ∈ up) :
    root.relativeName p = render p.normalize := by
  have hcontains : (root.normalize.drop (commonLength root.normalize p.normalize)).contains .parent
      = true := by
    rw [hcommon, hbase, List.drop_left]
    exact List.contains_iff_mem.mpr h
  unfold relativeName
  simp only [hcontains, Bool.or_true, if_true]

/-- **Else the entry goes up by what is left of the root and down by what is left of the path.** -/
theorem relativeName_eq (hbase : root.normalize = front ++ up)
    (htarget : p.normalize = front ++ down)
    (hcommon : commonLength root.normalize p.normalize = front.length)
    (hdiffer : ∀ c, up.head? = some c → down.head? ≠ some c) (hne : p.normalize ≠ [])
    (habs : root.isAbsolute = p.isAbsolute) (h : .parent ∉ up) :
    root.relativeName p = render (List.replicate up.length .parent ++ down) := by
  by_cases hempty : root.normalize = []
  · -- then there is nothing to go up from, and the entry is the normal form
    have hheads : root.normalize.head?.map isRoot ≠ p.normalize.head?.map isRoot := by
      rw [head?_isRoot hne, hempty]
      simp
    obtain ⟨rfl, rfl⟩ := List.append_eq_nil_iff.mp (hbase.symm.trans hempty)
    unfold relativeName
    simp only [bne_iff_ne.mpr hheads, Bool.true_or, if_true]
    rw [htarget]
    rfl
  · have hheads : (root.normalize.head?.map isRoot != p.normalize.head?.map isRoot) = false := by
      rw [head?_isRoot hempty, head?_isRoot hne, habs, bne_self_eq_false]
    have hanchor : (front.length == 0 && p.normalize.head?.any isRoot) = false := by
      rw [Bool.and_eq_false_imp, beq_iff_eq, List.length_eq_zero_iff]
      rintro rfl
      rw [← Bool.not_eq_true]
      intro hany
      obtain ⟨c, hc, hroot⟩ := (Option.any_eq_true _ _).mp hany
      obtain rfl : c = .root := beq_iff_eq.mp hroot
      have hboth := head?_normalize.mpr (habs.trans (head?_normalize.mp hc))
      rw [hbase] at hboth
      rw [htarget] at hc
      exact hdiffer .root hboth hc
    have hcontains : up.contains .parent = false := by
      rw [← Bool.not_eq_true, List.contains_iff_mem]
      exact h
    unfold relativeName
    simp only [hcommon, hheads, hanchor, Bool.false_or]
    rw [hbase, htarget, List.drop_left, List.drop_left, hcontains, if_neg Bool.false_ne_true,
      List.length_append, Nat.add_sub_cancel_left]

/-! ### Reading them back -/

/-- **An entry that goes up by names only leads back from the root.** -/
theorem normalize_join_relativeName (hbase : root.normalize = front ++ up)
    (htarget : p.normalize = front ++ down)
    (hcommon : commonLength root.normalize p.normalize = front.length)
    (hdiffer : ∀ c, up.head? = some c → down.head? ≠ some c) (hne : p.normalize ≠ [])
    (habs : root.isAbsolute = p.isAbsolute) (h : .parent ∉ up) :
    (root.join ⟨root.relativeName p⟩).normalize = p.normalize := by
  have hnormal := normal_normalize p
  have hnormalRoot := normal_normalize root
  -- a root at the start would be common to both
  have hroot : front = [] → up.head? ≠ some .root ∧ down.head? ≠ some .root := by
    rintro rfl
    have hup : up.head? = some .root ↔ down.head? = some .root := by
      have hheads :=
        (head?_normalize (p := root)).trans ((Bool.eq_iff_iff.mp habs).trans head?_normalize.symm)
      rwa [hbase, htarget] at hheads
    exact ⟨fun hu => hdiffer .root hu (hup.mp hu), fun hd => hdiffer .root (hup.mpr hd) hd⟩
  have hup : ∀ c ∈ up, ∃ text, c = .name text := by
    intro c hc
    have hne : c ≠ .root := by
      rintro rfl
      exact root_not_mem_of_normal (hbase ▸ hnormalRoot) (fun he => (hroot he).1) hc
    have hplain : IsPlain c :=
      isPlain_of_mem_normalize (p := root) (hbase ▸ List.mem_append_right _ hc) hne
    exact hplain.parent_or_name.resolve_left fun he => h (he ▸ hc)
  have hplain : ∀ c ∈ List.replicate up.length .parent ++ down, IsPlain c := by
    intro c hc
    rcases List.mem_append.mp hc with hc | hc
    · rw [List.eq_of_mem_replicate hc]
      exact ⟨by decide, by decide⟩
    · refine isPlain_of_mem_normalize (p := p) (htarget ▸ List.mem_append_right _ hc) ?_
      rintro rfl
      exact root_not_mem_of_normal (htarget ▸ hnormal) (fun he => (hroot he).2) hc
  rw [relativeName_eq hbase htarget hcommon hdiffer hne habs h,
    normalize_join_render root hplain, hbase, List.foldl_append, foldl_parents front hup, htarget]
  rw [htarget] at hnormal
  exact hnormal.foldl_pushNormal

/-- **From a root that goes up where the path does not, the entry of the path leads elsewhere.** -/
theorem normalize_join_relativeName_ne (hbase : root.normalize = front ++ up)
    (htarget : p.normalize = front ++ down)
    (hcommon : commonLength root.normalize p.normalize = front.length) (habs : p.isAbsolute = false)
    (hup : .parent ∈ up) (hdown : .parent ∉ down) :
    (root.join ⟨root.relativeName p⟩).normalize ≠ p.normalize := by
  have hplain : ∀ c ∈ p.normalize, IsPlain c := fun c hc => isPlain_of_mem_normalize hc (by
    rintro rfl
    exact absurd (isAbsolute_of_root_mem (mem_components_of_normalize hc)) (by simp [habs]))
  rw [relativeName_of_parent_mem hbase hcommon hup, normalize_join_render root hplain]
  intro hback
  -- the steps up of the root stay, and they are more than those of the path
  have hcount := count_parent_foldl p.normalize root.normalize
  have hmore := List.count_pos_iff.mpr hup
  rw [hback, hbase, htarget, List.count_append, List.count_append,
    List.count_eq_zero_of_not_mem hdown] at hcount
  omega

/-- An entry is taken for the path that it leads to from the root, if that is where it should
lead. -/
theorem exists_resolveEntry_iff (hroot : p.normalize ≠ root.normalize) :
    (∃ q, root.resolveEntry (root.relativeName p) = some q ∧ q.normalize = p.normalize) ↔
      (root.join ⟨root.relativeName p⟩).normalize = p.normalize := by
  unfold resolveEntry
  constructor
  · rintro ⟨q, hq, hnormalize⟩
    rw [Option.ite_none_left_eq_some, Option.some_inj] at hq
    rw [hq.2, hnormalize]
  · intro hback
    have hempty : (root.relativeName p).isEmpty = false := by
      rw [Bool.eq_false_iff]
      intro hempty
      have hstays := normalize_join_render root (List.forall_mem_nil IsPlain)
      rw [String.isEmpty_iff.mp hempty] at hback
      exact hroot (hback.symm.trans hstays)
    exact ⟨_, by simp [hempty, relativeName_congr root hback], hback⟩

/-- **The entry that is written for a path stands for it if the path is absolute, or if the root is
relative and goes up no further than the path does; in all other cases it does not**: it stands for
nothing, or for another path. -/
theorem resolveEntry_relativeName_iff (hne : p.normalize ≠ [])
    (hroot : p.normalize ≠ root.normalize) :
    (∃ q, root.resolveEntry (root.relativeName p) = some q ∧ q.normalize = p.normalize) ↔
      p.isAbsolute = true ∨
        root.isAbsolute = false ∧ root.normalize.count .parent ≤ p.normalize.count .parent := by
  rw [exists_resolveEntry_iff hroot]
  obtain ⟨front, up, down, hbase, htarget, hcommon, hdiffer⟩ :=
    exists_common root.normalize p.normalize
  have hcountBase := congrArg (List.count Component.parent) hbase
  have hcountTarget := congrArg (List.count Component.parent) htarget
  rw [List.count_append] at hcountBase hcountTarget
  have hchain : up.IsChain Component.Precedes :=
    (hbase ▸ normal_normalize root).chain.right_of_append
  have hchain' : down.IsChain Component.Precedes :=
    (htarget ▸ normal_normalize p).chain.right_of_append
  cases habs : p.isAbsolute with
  | true =>
    refine iff_of_true ?_ (Or.inl rfl)
    cases hrootAbs : root.isAbsolute with
    | true =>
      refine normalize_join_relativeName hbase htarget hcommon hdiffer hne
        (hrootAbs.trans habs.symm) fun hup => ?_
      have hparent :=
        head?_of_parent_mem (normal_normalize root).chain (hbase ▸ List.mem_append_right _ hup)
      rw [head?_normalize.mpr hrootAbs] at hparent
      exact absurd hparent (by simp)
    | false =>
      rw [relativeName_of_isAbsolute_ne hne (by simp [habs, hrootAbs])]
      exact normalize_join_render_absolute root habs
  | false =>
    cases hrootAbs : root.isAbsolute with
    | true =>
      -- whatever is joined to the root is absolute
      refine iff_of_false (fun hback => ?_) (by simp)
      have hhead := head?_normalize.mpr (isAbsolute_join hrootAbs ⟨root.relativeName p⟩)
      rw [hback, head?_normalize, habs] at hhead
      exact absurd hhead (by simp)
    | false =>
      by_cases hup : .parent ∈ up
      · have hdown : .parent ∉ down := fun hdown =>
          hdiffer .parent (head?_of_parent_mem hchain hup) (head?_of_parent_mem hchain' hdown)
        have hmore := List.count_pos_iff.mpr hup
        rw [List.count_eq_zero_of_not_mem hdown] at hcountTarget
        exact iff_of_false (normalize_join_relativeName_ne hbase htarget hcommon habs hup hdown)
          (by simp; omega)
      · rw [List.count_eq_zero_of_not_mem hup] at hcountBase
        refine iff_of_true ?_ (Or.inr ⟨rfl, by omega⟩)
        exact normalize_join_relativeName hbase htarget hcommon hdiffer hne
          (hrootAbs.trans habs.symm) hup

/-- From the directory above, what lies further above is found again, and **what lies beside is
not**. -/
theorem resolveEntry_relativeName_from_above :
    (∃ q, (⟨".."⟩ : Path).resolveEntry ((⟨".."⟩ : Path).relativeName ⟨"../../a/./b"⟩) = some q ∧
      q.normalize = (⟨"../../a/./b"⟩ : Path).normalize) ∧
    ¬ ∃ q, (⟨".."⟩ : Path).resolveEntry ((⟨".."⟩ : Path).relativeName ⟨"y"⟩) = some q ∧
      q.normalize = (⟨"y"⟩ : Path).normalize := by
  constructor
  · exact (resolveEntry_relativeName_iff (by decide) (by decide)).mpr
      (Or.inr ⟨by decide, by decide⟩)
  · rw [resolveEntry_relativeName_iff (by decide) (by decide)]
    decide

end EntityModel.Path
