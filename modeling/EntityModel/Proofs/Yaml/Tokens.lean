import EntityModel.Yaml.OneTwo.Tokens
import EntityModel.Proofs.Yaml.Scalars

/-!
# Where tokens stand

What starts a token looks at the character that stands there, so that it may be passed; the rest
keeps the lexer sound wherever it is.  A token that is put in later, for a key, starts where its key
was seen.
-/

namespace EntityModel.Yaml.OneTwo

open Scan

variable {text : List Char}

/-! ### Tags and anchors -/

theorem after_uriByte (start : Mark) (l : Lexer) : After (uriByte start) l fun _ l' =>
    l' = l ∧ ∀ i < 3, isBreakOrEnd (l.cursor.peekAt i) = false := by
  refine .step rfl (.guard rfl fun hbyte => .pure ⟨rfl, fun i hi => ?_⟩)
  simp only [Bool.not_eq_true', Bool.not_eq_false, Bool.and_eq_true, beq_iff_eq] at hbyte
  obtain ⟨⟨hpercent, hfirst⟩, hsecond⟩ := hbyte
  obtain rfl | rfl | rfl : i = 0 ∨ i = 1 ∨ i = 2 := by omega
  · rw [Cursor.peekAt_zero, hpercent]
    rfl
  · exact isBreakOrEnd_of_class isHex (by decide) hfirst
  · exact isBreakOrEnd_of_class isHex (by decide) hsecond

theorem keeps_uriTrail (start : Mark) : ∀ n code, Keeps text (uriTrail start n code) fun _ => True
  | 0, _ => .pure trivial
  | n + 1, code => fun l hl => by
    refine (after_uriByte start l).bind ?_
    rintro byte _ ⟨rfl, hbyte⟩
    exact .guard rfl fun _ => Keeps.step hl (hl.cursor.skipMany hbyte) (keeps_uriTrail start n _)

theorem keeps_uriEscape (start : Mark) : Keeps text (uriEscape start) fun _ => True := by
  intro l hl
  refine (after_uriByte start l).bind ?_
  rintro byte _ ⟨rfl, hbyte⟩
  split
  · exact (leaves_fail _ _).keeps _ hl
  · refine Keeps.step hl (hl.cursor.skipMany hbyte) ?_
    apply Upholds.bind (keeps_uriTrail start _ _)
    intro code _
    split
    · exact .pure trivial
    · exact (leaves_fail _ _).keeps

theorem keeps_uriRun {p : Char → Bool} (hp : ∀ x, p x = true → isBreakOrEnd x = false)
    (start : Mark) :
    ∀ fuel, Keeps text (uriRun p start fuel) fun _ => True
  | 0 => .pure trivial
  | fuel + 1 => fun l hl => by
    refine .step rfl ?_
    split
    · exact .pure ⟨hl, trivial⟩
    next hmore =>
    have hcontent : isBreakOrEnd l.cursor.peek = false := hp _ (by simpa using hmore)
    extract_lets body
    have hbody : ∀ x, Keeps text (body x) fun _ => True := by
      intro x
      apply Upholds.bind (keeps_uriRun hp start fuel)
      intro rest _
      exact .pure trivial
    split
    · exact (keeps_uriEscape start).bind (fun x _ => hbody x) l hl
    · exact Keeps.step hl (hl.cursor.skip hcontent) (.passOn hbody)

theorem keeps_uriText {p : Char → Bool} (hp : ∀ x, p x = true → isBreakOrEnd x = false)
    (start : Mark) :
    Keeps text (uriText p start) fun _ => True := by
  apply Upholds.leave leaves_cursor
  intro c _
  exact keeps_uriRun hp start c.fuel

theorem isBreakOrEnd_of_isAlpha : ∀ x, isAlpha x = true → isBreakOrEnd x = false :=
  fun _ => isBreakOrEnd_of_class isAlpha (by decide)

theorem isBreakOrEnd_of_isUriChar : ∀ x, isUriChar x = true → isBreakOrEnd x = false :=
  fun _ => isBreakOrEnd_of_class isUriChar (by decide)

theorem isBreakOrEnd_of_isTagChar : ∀ x, isTagChar x = true → isBreakOrEnd x = false :=
  fun _ => isBreakOrEnd_of_class isTagChar (by decide)

theorem keeps_tagHandle (directive : Bool) (start : Mark) :
    Keeps text (tagHandle directive start) fun _ => True := by
  intro l hl
  refine .step rfl (.guard rfl fun hmark => Keeps.step hl (hl.cursor.skip ?_) ?_)
  · rw [show l.cursor.peek = '!' by simpa using hmark]
    rfl
  · apply Upholds.bind (keeps_takeWhile isBreakOrEnd_of_isAlpha)
    intro name _ l hl
    refine .step rfl ?_
    split
    next hmark =>
      have hcontent : isBreakOrEnd l.cursor.peek = false := by rw [beq_iff_eq.mp hmark]; rfl
      exact Keeps.step hl (hl.cursor.skip hcontent) (.pure trivial)
    · exact .guard rfl fun _ => .pure ⟨hl, trivial⟩

theorem keeps_tagSuffix (head : List Char) (start : Mark) :
    Keeps text (tagSuffix head start) fun _ => True := by
  apply Upholds.bind (keeps_uriText isBreakOrEnd_of_isTagChar start)
  intro rest _
  apply Upholds.option (leaves_fail _ _).keeps
  exact .pure trivial

theorem takes_tag : Takes text tag fun _ => True := by
  apply Takes.stay leaves_saveKey
  apply Takes.stay (leaves_allowKey false)
  apply Takes.leave leaves_mark
  intro start hstart l hl hpeek
  refine .step rfl ?_
  extract_lets body
  have hbody : ∀ x, Keeps text (body x) fun _ => True := by
    intro x
    apply Upholds.leave leaves_peek
    intro trailing _
    apply Upholds.leave leaves_get
    intro l _
    apply Upholds.option (leaves_fail _ _).keeps
    exact (leaves_push _ hstart).keeps
  split
  next hverbatim =>
    refine Keeps.step hl (hl.cursor.skipMany fun i hi => ?_) ?_
    · obtain rfl | rfl : i = 0 ∨ i = 1 := by omega
      · rwa [Cursor.peekAt_zero]
      · rw [beq_iff_eq.mp hverbatim]
        rfl
    · apply Upholds.bind (keeps_uriText isBreakOrEnd_of_isUriChar start)
      intro uri _ l hl
      refine .step rfl (.guard rfl fun hclose => ?_)
      refine Keeps.step hl (hl.cursor.skip ?_) (.passOn hbody)
      rw [show l.cursor.peek = '>' by simpa using hclose]
      rfl
  · refine Upholds.bind (keeps_tagHandle false start) ?_ l hl
    intro handle _
    split
    · exact .bind (keeps_tagSuffix _ start) fun _ _ => .passOn hbody
    · exact .bind (keeps_tagSuffix _ start) fun _ _ => .passOn hbody

theorem takes_anchor (isAlias : Bool) : Takes text (anchor isAlias) fun _ => True := by
  apply Takes.stay leaves_saveKey
  apply Takes.stay (leaves_allowKey false)
  apply Takes.leave leaves_mark
  intro start hstart
  apply Takes.skip
  apply Upholds.bind (keeps_takeWhile fun _ => isBreakOrEnd_of_class isAnchorChar (by decide))
  intro name _
  apply Upholds.option (leaves_fail _ _).keeps
  exact (leaves_push _ hstart).keeps

/-! ### Directives -/

theorem keeps_versionNumber (start : Mark) : Keeps text (versionNumber start) fun _ => True := by
  apply Upholds.leave leaves_cursor
  intro c _
  apply Upholds.option (leaves_fail _ _).keeps
  apply Upholds.option (leaves_fail _ _).keeps
  apply Upholds.bind (keeps_takeWhile fun _ => isBreakOrEnd_of_class Char.isDigit (by decide))
  intro digits _
  exact .pure trivial

theorem keeps_skipBlanks : Keeps text skipBlanks fun _ => True :=
  keeps_move fun _ hc => hc.skipBlanksWhile fun _ => isBreakOrEnd_of_isBlank

theorem keeps_tagPrefix (start : Mark) : Keeps text (tagPrefix start) fun _ => True := by
  intro l hl
  refine .step rfl ?_
  extract_lets body
  have hbody : ∀ x, Keeps text (body x) fun _ => True := by
    intro x
    apply Upholds.bind (keeps_uriText isBreakOrEnd_of_isUriChar start)
    intro rest _
    exact .pure trivial
  have hskip : isBreakOrEnd l.cursor.peek = false → ∀ x, After (skip >>= fun _ => pure x >>= body) l
      fun _ l' => l'.Sound text ∧ True := fun hcontent x =>
    Keeps.step hl (hl.cursor.skip hcontent) (.passOn hbody)
  split
  next hmark => exact hskip (by rw [beq_iff_eq.mp hmark]; rfl) _
  split
  · exact fun _ _ h => nomatch h
  next hchar =>
  split
  · exact ((keeps_uriEscape start).bind fun x _ => hbody x) l hl
  · exact hskip (isBreakOrEnd_of_isTagChar _ (by simpa using hchar)) _

theorem takes_directive : Takes text directive fun _ => True := by
  apply Takes.stay (leaves_unrollIndent _)
  apply Takes.stay leaves_removeKey
  apply Takes.stay (leaves_allowKey false)
  apply Takes.leave leaves_mark
  intro start hstart
  apply Takes.skip
  apply Upholds.leave leaves_mark
  intro nameStart _
  apply Upholds.bind (keeps_takeWhile isBreakOrEnd_of_isAlpha)
  intro name _
  apply Upholds.option (leaves_fail _ _).keeps
  apply Upholds.leave leaves_peek
  intro behind _
  apply Upholds.option (leaves_fail _ _).keeps
  extract_lets body
  have hbody : ∀ kind, Keeps text (body kind) fun _ => True := by
    intro kind
    apply Upholds.seq keeps_skipGap
    intro l hl
    exact .step rfl (.guard rfl fun _ => Keeps.overBreak hl (leaves_push kind hstart).keeps)
  split
  · apply Upholds.seq keeps_skipBlanks
    apply Upholds.bind (keeps_versionNumber start)
    intro major _ l hl
    refine .step rfl (.guard rfl fun hdot => Keeps.step hl (hl.cursor.skip ?_) ?_)
    · rw [show l.cursor.peek = '.' by simpa using hdot]
      rfl
    · apply Upholds.bind (keeps_versionNumber start)
      intro minor _
      exact .passOn hbody
  · apply Upholds.seq keeps_skipBlanks
    apply Upholds.bind (keeps_tagHandle true start)
    intro handle _
    apply Upholds.seq keeps_skipBlanks
    apply Upholds.bind (keeps_tagPrefix start)
    intro tagStart _
    apply Upholds.leave leaves_peek
    intro trailing _
    apply Upholds.option (leaves_fail _ _).keeps
    exact .passOn hbody
  · apply Upholds.seq keeps_skipComment
    exact .passOn hbody

/-! ### Flow collections -/

theorem takes_flowStart (kind : TokenKind) : Takes text (flowStart kind) fun _ => True := by
  apply Takes.stay leaves_saveKey
  apply Takes.stay leaves_rollOneColumn
  refine Takes.stay (leaves_modify fun l hl => ?_) ?_
  · exact ⟨⟨hl.cursor, hl.queue, List.forall_mem_cons.mpr ⟨marked_start text, hl.keys⟩⟩, rfl⟩
  apply Takes.leave leaves_get
  intro l _
  apply Takes.option (leaves_failHere _)
  refine Takes.stay (leaves_modify fun l hl => ⟨⟨hl.cursor, hl.queue, hl.keys⟩, rfl⟩) ?_
  apply Takes.stay (leaves_allowKey true)
  apply Takes.leave leaves_mark
  intro start hstart
  apply Takes.skip
  refine Upholds.option
    (Leaves.keeps (leaves_modify fun l hl => ⟨⟨hl.cursor, hl.queue, hl.keys⟩, rfl⟩)) ?_
  apply Upholds.seq keeps_skipGap
  exact (leaves_push kind hstart).keeps

theorem takes_flowEnd (kind : TokenKind) : Takes text (flowEnd kind) fun _ => True := by
  apply Takes.stay leaves_removeKey
  refine Takes.stay (leaves_modify fun l hl => ?_) ?_
  · split
    · exact ⟨⟨hl.cursor, hl.queue, fun k hk => hl.keys k (List.mem_of_mem_tail hk)⟩, rfl⟩
    · exact ⟨hl, rfl⟩
  apply Takes.stay (leaves_allowKey false)
  apply Takes.leave leaves_mark
  intro stop hstop
  apply Takes.stay (leaves_endPair hstop)
  apply Takes.leave leaves_mark
  intro start hstart
  apply Takes.skip
  apply Upholds.seq keeps_skipGap
  refine Upholds.stay (leaves_modify fun l hl => ?_) ?_
  · split
    · exact ⟨⟨hl.cursor, hl.queue, hl.keys⟩, rfl⟩
    · exact ⟨hl, rfl⟩
  exact (leaves_push kind hstart).keeps

theorem takes_flowEntry : Takes text flowEntry fun _ => True := by
  apply Takes.stay leaves_removeKey
  apply Takes.stay (leaves_allowKey true)
  apply Takes.leave leaves_mark
  intro stop hstop
  apply Takes.stay (leaves_endPair hstop)
  apply Takes.leave leaves_mark
  intro start hstart
  apply Takes.skip
  apply Upholds.seq keeps_skipGap
  exact (leaves_push _ hstart).keeps

/-! ### Block collections -/

theorem takes_blockEntry : Takes text blockEntry fun _ => True := by
  apply Takes.leave leaves_get
  intro l hl
  apply Takes.option (leaves_failHere _)
  apply Takes.option (leaves_failHere _)
  extract_lets start noted checked body
  have hbody : Takes text (body ()) fun _ => True := by
    apply Takes.skip
    apply Upholds.stay (leaves_rollIndent _ _ _ hl.mark)
    apply Upholds.bind (keeps_skipLineBlanks true)
    intro blanks _
    apply Upholds.leave leaves_cursor
    intro c _
    apply Upholds.option (leaves_failHere _).keeps
    apply Upholds.bind (keeps_skipLineBlanks false)
    intro more _
    apply Upholds.leave leaves_peek
    intro first _
    apply Upholds.option leaves_rollOneColumn.keeps
    apply Upholds.stay leaves_removeKey
    apply Upholds.stay (leaves_allowKey true)
    apply Upholds.leave leaves_mark
    intro mark hmark
    exact (leaves_push _ hmark).keeps
  split
  · exact .option (leaves_fail _ _) hbody
  · exact .option (leaves_fail _ _) hbody
  · exact hbody

theorem takes_explicitKey : Takes text explicitKey fun _ => True := by
  apply Takes.leave leaves_mark
  intro start hstart
  apply Takes.leave leaves_get
  intro l _
  extract_lets sent blank entered rolled
  have hentered : Takes text (entered ()) fun _ => True := by
    apply Takes.stay leaves_removeKey
    apply Takes.leave leaves_get
    intro l _
    apply Takes.stay (leaves_allowKey _)
    apply Takes.skip
    apply Upholds.leave leaves_cursor
    intro c _
    apply Upholds.bind (keeps_skipSpacesAndBreaks _ _)
    intro met _
    apply Upholds.option (leaves_failHere _).keeps
    apply Upholds.leave leaves_peek
    intro first _
    apply Upholds.option (leaves_failHere _).keeps
    exact (leaves_push _ hstart).keeps
  split
  · apply Takes.leave leaves_get
    intro l _
    apply Takes.option (leaves_failHere _)
    apply Takes.stay (leaves_rollIndent _ _ _ hstart)
    exact hentered
  · refine Takes.stay (leaves_modify fun l hl => ⟨⟨hl.cursor, hl.queue, hl.keys⟩, rfl⟩) ?_
    exact hentered

theorem marked_headKey {l : Lexer} (hl : l.Sound text) : Marked text (l.keys.headD {}).mark := by
  cases hkeys : l.keys with
  | nil => exact marked_start text
  | cons k keys => exact hl.keys k (hkeys ▸ List.mem_cons_self)

theorem takes_value : Takes text value fun _ => True := by
  apply Takes.leave leaves_get
  intro l hl
  refine Takes.stay (leaves_modify fun l hl => ⟨⟨hl.cursor, hl.queue, hl.keys⟩, rfl⟩) ?_
  apply Takes.skip
  apply Upholds.leave leaves_peek
  intro first _
  extract_lets sent keyed opened bare entered checked body
  have hstart := hl.mark
  have hsent : Keeps text (sent ()) fun _ => True := (leaves_push _ hstart).keeps
  -- a key is there: it is put in, with the mapping that it opens
  have hkeyed : Keeps text (keyed ()) fun _ => True := by
    apply Upholds.stay (leaves_rollIndent _ _ _ hstart)
    apply Upholds.stay leaves_rollOneColumn
    refine Upholds.stay (leaves_modify fun l hl => ⟨⟨hl.cursor, hl.queue, ?_⟩, rfl⟩) ?_
    · exact List.forall_mem_cons.mpr ⟨marked_headKey hl,
        fun k hk => hl.keys k (List.mem_of_mem_tail hk)⟩
    apply Upholds.stay (leaves_allowKey false)
    exact hsent
  have hopened : Keeps text (opened ()) fun _ => True := by
    apply Upholds.leave leaves_mark
    intro mark hmark
    apply Upholds.stay (leaves_insert _ _ hmark)
    exact hkeyed
  -- no key is there: the value stands alone
  have hbare : Keeps text (bare ()) fun _ => True := by
    apply Upholds.stay leaves_rollOneColumn
    apply Upholds.stay (leaves_allowKey _)
    exact hsent
  have hchecked : Keeps text (checked ()) fun _ => True := by
    refine Upholds.ite ?_ hbare
    apply Upholds.option (leaves_fail _ _).keeps
    apply Upholds.stay (leaves_rollIndent _ _ _ hstart)
    exact hbare
  have hbody : Keeps text (body ()) fun _ => True := by
    refine Upholds.ite ?_ (Upholds.ite ?_ hchecked)
    · apply Upholds.stay (leaves_insert _ _ (marked_headKey hl))
      exact .ite (.option (leaves_fail _ _).keeps hopened) hkeyed
    · apply Upholds.leave leaves_mark
      intro mark hmark
      apply Upholds.stay (leaves_push _ hmark)
      exact hchecked
  refine Upholds.ite ?_ hbody
  apply Upholds.bind (keeps_skipLineBlanks true)
  intro blanks _
  apply Upholds.leave leaves_peek
  intro next _
  exact .option (leaves_failHere _).keeps hbody

/-! ### Documents and streams -/

theorem after_documentMarker (kind : TokenKind) (x : Char) (hx : isBreakOrEnd x = false) {l : Lexer}
    (hl : l.Sound text) (hmarker : startsWithMarker l.cursor x = true) :
    After (documentMarker kind) l fun _ l' => l'.Sound text ∧ True := by
  refine (leaves_unrollIndent (-1) l hl).bind fun _ l₁ h₁ => ?_
  refine (leaves_removeKey l₁ h₁.1.sound).bind fun _ l₂ h₂ => ?_
  refine (leaves_allowKey false l₂ h₂.1.sound).bind fun _ l₃ h₃ => .step rfl ?_
  have hstays := (h₁.1.trans h₂.1).trans h₃.1
  refine Keeps.step hstays.sound (hstays.sound.cursor.skipMany ?_)
    (leaves_push kind hstays.sound.mark).keeps
  simp only [startsWithMarker, Bool.and_eq_true, beq_iff_eq] at hmarker
  obtain ⟨⟨⟨hfirst, hsecond⟩, hthird⟩, -⟩ := hmarker
  rw [hstays.cursor]
  intro i hi
  obtain rfl | rfl | rfl : i = 0 ∨ i = 1 ∨ i = 2 := by omega
  · rwa [Cursor.peekAt_zero, hfirst]
  · rwa [hsecond]
  · rwa [hthird]

theorem after_streamEnd {l : Lexer} (hl : l.Sound text) (hend : isEnd l.cursor.peek = true) :
    After streamEnd l fun _ l' => l'.Sound text ∧ True := by
  have hforced : After (ε := Fault) forceNewLine l fun _ l' => l'.Sound text ∧ True := by
    refine .run rfl ⟨?_, trivial⟩
    beta_reduce
    split
    · exact hl
    next hcolumn =>
      exact ⟨⟨hl.cursor.size, hl.cursor.stands.ended (by simpa using hcolumn) hend⟩,
        hl.queue, hl.keys⟩
  refine hforced.bind fun _ l₁ h₁ => .step rfl (.guard rfl fun _ => ?_)
  have hdropped : Lexer.Sound text { l₁ with keys := l₁.keys.map PendingKey.drop } := by
    refine ⟨h₁.1.cursor, h₁.1.queue, fun k hk => ?_⟩
    obtain ⟨k, hmem, rfl⟩ := List.mem_map.mp hk
    exact h₁.1.keys k hmem
  refine .step rfl (Upholds.stay (leaves_unrollIndent (-1)) ?_ _ hdropped)
  apply Upholds.stay leaves_removeKey
  apply Upholds.stay (leaves_allowKey false)
  apply Upholds.leave leaves_mark
  intro mark hmark
  exact (leaves_push _ hmark).keeps

theorem keeps_streamStart : Keeps (ε := Fault) text streamStart fun _ => True := by
  refine Upholds.stay (leaves_modify fun l hl => ?_) ?_
  · exact ⟨⟨hl.cursor, hl.queue, List.forall_mem_singleton.mpr (marked_start text)⟩, rfl⟩
  apply Upholds.leave leaves_mark
  intro mark hmark
  exact (leaves_push _ hmark).keeps

theorem keeps_next : Keeps text next fun _ => True := by
  apply Upholds.leave leaves_get
  intro l _
  split
  · exact .seq keeps_streamStart (.pure trivial)
  apply Upholds.leave leaves_cursor
  intro c _
  apply Upholds.seq (keeps_skipToToken _)
  apply Upholds.stay leaves_dropStaleKeys
  apply Upholds.leave leaves_mark
  intro mark _
  apply Upholds.stay (leaves_unrollIndent _)
  intro l hl
  refine .step rfl ?_
  dsimp only
  split
  next hend => exact after_streamEnd hl hend
  have hcontent : ∀ x, l.cursor.peek = x → isBreakOrEnd x = false →
      isBreakOrEnd l.cursor.peek = false :=
    fun _ hpeek hx => hpeek ▸ hx
  split
  next hpercent =>
    have hpeek := beq_iff_eq.mp (Bool.and_eq_true _ _ ▸ hpercent).2
    exact takes_directive l hl (hcontent '%' hpeek rfl)
  split
  next hmarker =>
    rw [Bool.and_eq_true] at hmarker
    exact after_documentMarker _ '-' rfl hl hmarker.2
  split
  next hmarker =>
    rw [Bool.and_eq_true] at hmarker
    refine (after_documentMarker _ '.' rfl hl hmarker.2).bind fun _ l' h =>
      Upholds.seq keeps_skipGap ?_ l' h.1
    apply Upholds.leave leaves_peek
    intro behind _
    exact .option (leaves_failHere _).keeps (.pure trivial)
  split
  · exact (leaves_failHere _).keeps l hl
  have hplain := keeps_plainScalar l hl
  split
  next hpeek => exact takes_flowStart _ l hl (hcontent _ hpeek rfl)
  next hpeek => exact takes_flowStart _ l hl (hcontent _ hpeek rfl)
  next hpeek => exact takes_flowEnd _ l hl (hcontent _ hpeek rfl)
  next hpeek => exact takes_flowEnd _ l hl (hcontent _ hpeek rfl)
  next hpeek => exact takes_flowEntry l hl (hcontent _ hpeek rfl)
  next hpeek => exact .ite (takes_blockEntry l hl (hcontent _ hpeek rfl)) hplain
  next hpeek => exact .ite (takes_explicitKey l hl (hcontent _ hpeek rfl)) hplain
  next hpeek => exact .ite (takes_value l hl (hcontent _ hpeek rfl)) hplain
  next hpeek => exact takes_anchor true l hl (hcontent _ hpeek rfl)
  next hpeek => exact takes_anchor false l hl (hcontent _ hpeek rfl)
  next hpeek => exact takes_tag l hl (hcontent _ hpeek rfl)
  next hpeek => exact .ite hplain (takes_blockScalar true l hl (hcontent _ hpeek rfl))
  next hpeek => exact .ite hplain (takes_blockScalar false l hl (hcontent _ hpeek rfl))
  next hpeek => exact takes_quotedScalar true l hl (hcontent _ hpeek rfl)
  next hpeek => exact takes_quotedScalar false l hl (hcontent _ hpeek rfl)
  · exact (leaves_failHere _).keeps l hl
  · exact (leaves_failHere _).keeps l hl
  · exact (leaves_failHere _).keeps l hl
  · exact hplain

theorem keeps_ready : ∀ fuel, Keeps text (ready next dropStaleKeys fuel) fun _ => True
  | 0 => .pure trivial
  | fuel + 1 => by
    apply Upholds.leave leaves_get
    intro l _
    extract_lets body
    have hbody : ∀ waiting, Keeps text (body waiting) fun _ => True := fun waiting =>
      .ite (.seq keeps_next (keeps_ready fuel)) (.pure trivial)
    refine Upholds.ite (.passOn hbody) ?_
    apply Upholds.stay leaves_dropStaleKeys
    apply Upholds.leave leaves_get
    intro l _
    exact .passOn hbody

theorem marked_deliver (fuel : Nat) : ∀ n {l : Lexer}, l.Sound text →
    ∀ t ∈ (deliver next dropStaleKeys fuel n l).tokens, Marked text t.start ∧ Marked text t.readTo
  | 0, _, _ => fun t ht => absurd ht List.not_mem_nil
  | n + 1, l, hl => fun t ht => by
    unfold deliver at ht
    split at ht
    · exact absurd ht List.not_mem_nil
    next l' hready =>
    have hl' := (keeps_ready fuel l hl _ _ hready).1
    split at ht
    · exact absurd ht List.not_mem_nil
    next first queue hqueue =>
    have hmarks := List.forall_mem_cons.mp (hqueue ▸ hl'.queue)
    have hsent : Marked text first.start ∧ Marked text l'.cursor.mark := ⟨hmarks.1, hl'.mark⟩
    dsimp only at ht
    split at ht
    · exact List.mem_singleton.mp ht ▸ hsent
    · rcases List.mem_cons.mp ht with rfl | ht
      · exact hsent
      · have hrest : Lexer.Sound text { l' with queue, delivered := l'.delivered + 1 } :=
          ⟨hl'.cursor, hmarks.2, hl'.keys⟩
        exact marked_deliver fuel n hrest t ht

/-- **Tokens stand where the lexer can**, and so does what was read for them. -/
theorem marked_tokens (text : List Char) :
    ∀ t ∈ (tokens text).tokens, Marked text t.start ∧ Marked text t.readTo :=
  marked_deliver _ _ ⟨Cursor.in_ofText text, fun _ ht => absurd ht List.not_mem_nil,
    fun _ hk => absurd hk List.not_mem_nil⟩

end EntityModel.Yaml.OneTwo
