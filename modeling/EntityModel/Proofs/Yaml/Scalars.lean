import EntityModel.Yaml.OneTwo.Scalars
import EntityModel.Proofs.Yaml.Scanning

/-!
# Scalars keep the lexer sound

Plain and quoted scalars are read with fuel.  For plain ones any will do; a quoted one has to come
to its closing quote before the fuel is spent, since what stands there is passed as content.
-/

namespace EntityModel.Yaml.OneTwo

open Scan

variable {text : List Char}

theorem isBreakOrEnd_of_isGap {x : Char} (hx : isGap x = false) : isBreakOrEnd x = false :=
  (Bool.or_eq_false_iff.mp hx).2

/-! ### Plain scalars -/

theorem in_plainRun (flow : Bool) :
    ∀ fuel {c : Cursor}, c.In text → (plainRun flow fuel c).2.In text
  | 0, _, hc => hc
  | fuel + 1, c, hc => by
    unfold plainRun
    split
    next hmore =>
      rw [Bool.and_eq_true, Bool.not_eq_true'] at hmore
      exact in_plainRun flow fuel (hc.skip (isBreakOrEnd_of_isGap hmore.1))
    · exact hc

theorem keeps_plainGap (start : Mark) (indent : Int) :
    ∀ fuel blanks breaks, Keeps text (plainGap start indent fuel blanks breaks) fun _ => True
  | 0, _, _ => .pure trivial
  | fuel + 1, blanks, breaks => fun l hl => by
    have ih := keeps_plainGap start indent fuel
    refine .step rfl ?_
    split
    next hblank =>
      have hc := hl.cursor.skipBlank (isBreakOrEnd_of_isBlank hblank)
      split
      · exact Keeps.step hl hc (ih _ _)
      split
      · refine Upholds.seq keeps_skipGap ?_ l hl
        apply Upholds.leave leaves_peek
        intro next _
        exact .option (leaves_fail _ _).keeps (ih _ _)
      · exact Keeps.step hl hc (ih _ _)
    split
    next hbreak => exact Keeps.step hl (hl.cursor.skipBreak hbreak) (ih _ _)
    · exact .pure ⟨hl, trivial⟩

theorem keeps_plainText (start : Mark) (indent : Int) :
    ∀ fuel read blanks breaks, Keeps text (plainText start indent fuel read blanks breaks) fun _ =>
      True
  | 0, _, _, _ => .pure trivial
  | fuel + 1, read, blanks, breaks => fun l hl => by
    have ih := keeps_plainText start indent fuel
    refine .step rfl (.step rfl ?_)
    dsimp only
    split
    · exact .pure ⟨hl, trivial⟩
    refine .guard rfl fun _ => ?_
    refine Keeps.step hl (in_plainRun _ _ hl.cursor) ?_
    split
    · exact .pure trivial
    apply Upholds.bind (keeps_plainGap start indent _ _ _)
    intro gap _
    apply Upholds.leave leaves_mark
    intro mark _
    split
    · exact .pure trivial
    · exact ih _ _ _

theorem keeps_plainScalar : Keeps text plainScalar fun _ => True := by
  apply Upholds.stay leaves_saveKey
  apply Upholds.stay (leaves_allowKey false)
  apply Upholds.stay leaves_unrollNonBlock
  apply Upholds.leave leaves_get
  intro l hl
  apply Upholds.option (leaves_fail _ _).keeps
  apply Upholds.bind (keeps_plainText _ _ _ _ _ _)
  intro read _
  apply Upholds.option (leaves_allowKey true).keeps
  exact (leaves_push _ hl.mark).keeps

/-! ### Quoted scalars -/

/-- The letter behind the backslash of a known escape is content. -/
theorem isBreakOrEnd_of_escape {x : Char}
    (hx : ((shortEscape? x).isSome || (escapeLength? x).isSome) = true) :
    isBreakOrEnd x = false :=
  isBreakOrEnd_of_class (fun x => (shortEscape? x).isSome || (escapeLength? x).isSome)
    (by decide) hx

/-- The lexer has not moved, for a reason, or it is nearer to the end of the text. -/
def Nears (l l' : Lexer) (why : Prop) : Prop :=
  l' = l ∧ why ∨ l'.cursor.rest.length < l.cursor.rest.length

theorem Nears.le {l l' : Lexer} {why : Prop} (h : Nears l l' why) :
    l'.cursor.rest.length ≤ l.cursor.rest.length := by
  rcases h with ⟨rfl, -⟩ | h
  · exact Nat.le_refl _
  · exact Nat.le_of_lt h

theorem length_drop_lt {rest : List Char} (hne : rest ≠ []) (n : Nat) :
    (rest.drop (n + 1)).length < rest.length := by
  have := List.length_pos_iff.mpr hne
  rw [List.length_drop]
  omega

theorem after_escape (start : Mark) {l : Lexer} (hl : l.Sound text) (hpeek : l.cursor.peek = '\\') :
    After (escape start) l fun _ l' => l'.Sound text ∧
      l'.cursor.rest.length < l.cursor.rest.length := by
  have hne := Cursor.rest_ne_nil (c := l.cursor) (by rw [hpeek]; decide)
  have htwo : ∀ letter, l.cursor.peekAt 1 = letter →
      ((shortEscape? letter).isSome || (escapeLength? letter).isSome) = true →
      (l.cursor.skipMany 2).In text := by
    rintro _ rfl hletter
    refine hl.cursor.skipMany fun i hi => ?_
    obtain rfl | rfl : i = 0 ∨ i = 1 := by omega
    · rw [Cursor.peekAt_zero, hpeek]
      rfl
    · exact isBreakOrEnd_of_escape hletter
  have hlength : (l.cursor.skipMany 2).rest.length < l.cursor.rest.length := by
    rw [Cursor.rest_skipMany]
    exact length_drop_lt hne 1
  refine .step rfl ?_
  split
  next c hshort => exact .run rfl ⟨hl.move (htwo _ rfl (by rw [hshort]; rfl)), hlength⟩
  · exact fun _ _ h => nomatch h
  next n _ hlong =>
    have hc := htwo _ rfl (by rw [hlong, Bool.or_comm]; rfl)
    refine .step rfl (.step rfl (.guard rfl fun hhex => ?_))
    split
    next c _ =>
      refine .run rfl ⟨hl.move (hc.skipMany fun i hi => isBreakOrEnd_of_class isHex (by decide) ?_),
        ?_⟩
      · simp only [Bool.not_eq_true', Bool.not_eq_false, List.all_eq_true] at hhex
        exact hhex _ (List.mem_map.mpr ⟨i, List.mem_range.mpr hi, rfl⟩)
      · refine Nat.lt_of_le_of_lt ?_ hlength
        change ((l.cursor.skipMany 2).skipMany n).rest.length ≤ _
        rw [Cursor.rest_skipMany, List.length_drop]
        exact Nat.sub_le _ _
    · exact fun _ _ h => nomatch h

def quoteOf (single : Bool) : Char := if single then '\'' else '"'

theorem after_quotedRun (single : Bool) (start : Mark) : ∀ fuel {l : Lexer}, l.Sound text →
    After (quotedRun single start fuel) l fun _ l' => l'.Sound text ∧
      Nears l l' (fuel = 0 ∨ isGap l.cursor.peek = true ∨ l.cursor.peek = quoteOf single)
  | 0, _, hl => .pure ⟨hl, .inl ⟨rfl, .inl rfl⟩⟩
  | fuel + 1, l, hl => by
    have hmore : ∀ (first : Char) {l₁ : Lexer}, l₁.Sound text →
        l₁.cursor.rest.length < l.cursor.rest.length →
        After (quotedRun single start fuel >>= fun run => pure (first :: run.1, run.2)) l₁
          fun _ l' => l'.Sound text ∧
            Nears l l' (fuel + 1 = 0 ∨ isGap l.cursor.peek = true ∨ l.cursor.peek = quoteOf single) :=
      fun first l₁ hl₁ hlt => (after_quotedRun single start fuel hl₁).bind fun _ l₂ h =>
        .pure ⟨h.1, .inr (Nat.lt_of_le_of_lt h.2.le hlt)⟩
    refine .step rfl ?_
    dsimp only
    split
    next hgap => exact .pure ⟨hl, .inl ⟨rfl, .inr (.inl hgap)⟩⟩
    next hgap =>
    have hcontent := isBreakOrEnd_of_isGap (Bool.not_eq_true _ ▸ hgap)
    have hdrop := length_drop_lt (Cursor.rest_ne_nil (Bool.or_eq_false_iff.mp hcontent).2)
    split
    next hquote =>
      rw [Bool.and_eq_true, beq_iff_eq] at hquote
      split
      next hpair =>
        refine .step rfl (hmore _ (hl.move (hl.cursor.skipMany fun i hi => ?_)) ?_)
        · obtain rfl | rfl : i = 0 ∨ i = 1 := by omega
          · rw [Cursor.peekAt_zero, hquote.2]
            rfl
          · rw [beq_iff_eq.mp hpair]
            rfl
        · change (l.cursor.skipMany 2).rest.length < _
          rw [Cursor.rest_skipMany]
          exact hdrop 1
      · exact .pure ⟨hl, .inl ⟨rfl, .inr (.inr (by rw [quoteOf, hquote.1, hquote.2]; rfl))⟩⟩
    split
    next hquote =>
      rw [Bool.and_eq_true, Bool.not_eq_true', beq_iff_eq] at hquote
      exact .pure ⟨hl, .inl ⟨rfl, .inr (.inr (by rw [quoteOf, hquote.1, hquote.2]; rfl))⟩⟩
    split
    next hescape =>
      rw [Bool.and_eq_true, beq_iff_eq] at hescape
      split
      next hbreak =>
        have hpeek : isBreak l.cursor.skip.peek = true := by
          rwa [← Cursor.peekAt_zero, Cursor.peekAt_skip]
        refine .step rfl (.pure ⟨hl.move ((hl.cursor.skip hcontent).skipBreak hpeek), .inr ?_⟩)
        exact Nat.lt_trans (Cursor.length_skipBreak hpeek) (hdrop 0)
      · exact (after_escape start hl hescape.2).bind fun c _ h => hmore c h.1 h.2
    · exact .step rfl (hmore _ (hl.move (hl.cursor.skip hcontent)) (hdrop 0))

theorem after_quotedGap : ∀ fuel gap {l : Lexer}, l.Sound text →
    After (quotedGap fuel gap) l fun _ l' => l'.Sound text ∧
      Nears l l' (fuel = 0 ∨ (isBlank l.cursor.peek || isBreak l.cursor.peek) = false)
  | 0, _, _, hl => .pure ⟨hl, .inl ⟨rfl, .inl rfl⟩⟩
  | fuel + 1, gap, l, hl => by
    have hmore : ∀ gap {c : Cursor}, c.In text → c.rest.length < l.cursor.rest.length →
        After (quotedGap fuel gap) { l with cursor := c } fun _ l' => l'.Sound text ∧
          Nears l l' (fuel + 1 = 0 ∨ (isBlank l.cursor.peek || isBreak l.cursor.peek) = false) :=
      fun gap c hc hlt => (after_quotedGap fuel gap (hl.move hc)).mono fun _ l' h =>
        ⟨h.1, .inr (Nat.lt_of_le_of_lt h.2.le hlt)⟩
    refine .step rfl ?_
    dsimp only
    split
    next hblank =>
      have hcontent := isBreakOrEnd_of_isBlank hblank
      have hc := hl.cursor.skipBlank hcontent
      have hlt := length_drop_lt (Cursor.rest_ne_nil (Bool.or_eq_false_iff.mp hcontent).2) 0
      split
      · exact .step rfl (.guard rfl fun _ => .step rfl (hmore _ hc hlt))
      · exact .step rfl (hmore _ hc hlt)
    split
    next hbreak =>
      refine .step rfl ?_
      split
      · exact hmore _ (hl.cursor.skipBreak hbreak) (Cursor.length_skipBreak hbreak)
      · exact hmore _ (hl.cursor.skipBreak hbreak) (Cursor.length_skipBreak hbreak)
    next hblank hbreak => exact .pure ⟨hl, .inl ⟨rfl, .inr (by simp [hblank, hbreak])⟩⟩

/-- The fuel lasts to the closing quote, since every round comes nearer to the end of the text. -/
theorem after_quotedText (single : Bool) (start : Mark) : ∀ fuel read {l : Lexer}, l.Sound text →
    l.cursor.rest.length < fuel →
    After (quotedText single start fuel read) l fun _ l' => l'.Sound text ∧
      l'.cursor.peek = quoteOf single
  | 0, _, _, _, hfuel => absurd hfuel (Nat.not_lt_zero _)
  | fuel + 1, read, l, hl, hfuel => by
    refine .step rfl (.guard rfl fun _ => .guard rfl fun hend => .step rfl (.guard rfl fun _ => ?_))
    refine (after_quotedRun single start _ hl).bind ?_
    rintro ⟨run, escaped⟩ l₁ ⟨hl₁, hrun⟩
    refine .step rfl ?_
    change After (if (l₁.cursor.peek == quoteOf single) = true then _ else _) _ _
    split
    next hquote => exact .pure ⟨hl₁, beq_iff_eq.mp hquote⟩
    next hquote =>
    refine .step rfl ((after_quotedGap _ _ hl₁).bind fun gap l₂ h₂ =>
      after_quotedText single start fuel _ h₂.1 ?_)
    have hlt : l₂.cursor.rest.length < l.cursor.rest.length := by
      rcases hrun with ⟨rfl, hwhy⟩ | hlt
      · rcases h₂.2 with ⟨rfl, hgap⟩ | hlt
        · rcases hwhy with hfuel | hwhy | hwhy
          · exact absurd hfuel (Nat.succ_ne_zero _)
          · rcases hgap with hfuel | hgap
            · exact absurd hfuel (Nat.succ_ne_zero _)
            · exact absurd hwhy (by simp_all [isGap, isBreakOrEnd])
          · exact absurd (beq_iff_eq.mpr hwhy) hquote
        · exact hlt
      · exact Nat.lt_of_le_of_lt h₂.2.le hlt
    omega

theorem takes_quotedScalar (single : Bool) : Takes text (quotedScalar single) fun _ => True := by
  apply Takes.stay leaves_saveKey
  apply Takes.stay (leaves_allowKey false)
  apply Takes.leave leaves_mark
  intro start hstart
  apply Takes.skip
  intro l hl
  refine .step rfl ?_
  refine (after_quotedText single start _ [] hl hl.cursor.rest_lt_fuel).bind ?_
  intro read l₁ ⟨hl₁, hquote⟩
  have hcontent : isBreakOrEnd l₁.cursor.peek = false := by
    rw [hquote]
    cases single <;> rfl
  refine Takes.skip ?_ l₁ hl₁ hcontent
  apply Upholds.seq keeps_skipGap
  apply Upholds.leave leaves_get
  intro l₂ _
  apply Upholds.option (leaves_failHere _).keeps
  apply Upholds.seq (keeps_skipToToken _)
  refine Upholds.stay (leaves_modify fun l hl => ⟨⟨hl.cursor, hl.queue, hl.keys⟩, rfl⟩) ?_
  exact (leaves_push _ hstart).keeps

/-! ### Block scalars -/

theorem keeps_blockHeader (start : Mark) : Keeps text (blockHeader start) fun _ => True := by
  unfold blockHeader
  extract_lets chomping increment
  have hchomping : Keeps text chomping fun _ => True := fun l hl => by
    refine .step rfl ?_
    split
    next hpeek => exact Keeps.step hl (hl.cursor.skip (by rw [hpeek]; rfl)) (.pure trivial)
    next hpeek => exact Keeps.step hl (hl.cursor.skip (by rw [hpeek]; rfl)) (.pure trivial)
    · exact .pure ⟨hl, trivial⟩
  have hincrement : Keeps text increment fun _ => True := fun l hl => by
    refine .step rfl ?_
    split
    next hdigit =>
      refine .guard rfl fun _ => Keeps.step hl (hl.cursor.skip ?_) (.pure trivial)
      exact isBreakOrEnd_of_class Char.isDigit (by decide) hdigit
    · exact .pure ⟨hl, trivial⟩
  refine .bind hchomping fun first _ => .bind hincrement fun second _ => ?_
  split
  · exact .bind hchomping fun _ _ => .pure trivial
  · exact .pure trivial

theorem leaves_lookAhead (n : Nat) : Leaves text (lookAhead n) fun _ => True :=
  leaves_modify fun _ hl => ⟨⟨hl.cursor, hl.queue, hl.keys⟩, rfl⟩

theorem after_blockLine {l : Lexer} (hl : l.Sound text) :
    After blockLine l fun _ l' => l'.Sound text ∧ isBreakOrEnd l'.cursor.peek = true := by
  have hsplit :=
    List.takeWhile_append_dropWhile (p := fun x => !isBreakOrEnd x) (l := l.cursor.rest)
  have hrun : ∀ x ∈ l.cursor.rest.takeWhile fun x => !isBreakOrEnd x, isBreakOrEnd x = false :=
    fun x hx => by
    simpa using List.mem_takeWhile_imp hx
  have hdrop : l.cursor.rest.drop (l.cursor.rest.takeWhile fun x => !isBreakOrEnd x).length
      = l.cursor.rest.dropWhile fun x => !isBreakOrEnd x :=
    (congrArg (List.drop _) hsplit.symm).trans List.drop_left
  refine .step rfl (.step rfl (.pure ⟨hl.move (hl.cursor.pass hrun rfl ?_ rfl rfl), ?_⟩))
  · change _ = _ ++ l.cursor.rest.drop _
    rw [hdrop, hsplit]
  · change isBreakOrEnd ((l.cursor.rest.drop _).headD endOfText) = true
    rw [hdrop]
    cases hrest : l.cursor.rest.dropWhile fun x => !isBreakOrEnd x with
    | nil => rfl
    | cons x rest =>
      have := List.head_dropWhile_not (fun x => !isBreakOrEnd x)
        (by rw [hrest]; exact List.cons_ne_nil x rest)
      simpa [hrest] using this

theorem isBreakOrEnd_of_space : ∀ x : Char, (x == ' ') = true → isBreakOrEnd x = false :=
  fun _ => isBreakOrEnd_of_class (· == ' ') (by decide)

theorem keeps_blockGap (indent : Nat) :
    ∀ fuel breaks, Keeps text (blockGap indent fuel breaks) fun _ => True
  | 0, _ => .pure trivial
  | fuel + 1, breaks => fun l hl => by
    refine .step rfl ((leaves_lookAhead _ l hl).bind fun _ l₁ h => ?_)
    refine Keeps.step h.1.sound ?_ ?_
    · rw [h.1.cursor]
      exact hl.cursor.repeat_skipBlank isBreakOrEnd_of_space (Nat.min_le_left _ _)
    intro l₂ hl₂
    refine .step rfl ?_
    split
    next hbreak => exact Keeps.step hl₂ (hl₂.cursor.skipBreak hbreak) (keeps_blockGap indent fuel _)
    · exact .pure ⟨hl₂, trivial⟩

theorem keeps_blockLead :
    ∀ fuel deepest breaks, Keeps text (blockLead fuel deepest breaks) fun _ => True
  | 0, _, _ => .pure trivial
  | fuel + 1, deepest, breaks => by
    apply Upholds.seq (keeps_move fun c hc => hc.skipBlanksWhile isBreakOrEnd_of_space)
    apply Upholds.leave leaves_mark
    intro mark _ l hl
    refine .step rfl ?_
    split
    next hbreak => exact Keeps.step hl (hl.cursor.skipBreak hbreak) (keeps_blockLead fuel _ _)
    · exact .pure ⟨hl, trivial⟩

theorem keeps_blockLines (literal : Bool) (indent : Nat) :
    ∀ fuel b, Keeps text (blockLines literal indent fuel b) fun _ => True
  | 0, _ => .pure trivial
  | fuel + 1, b => fun l hl => by
    refine .step rfl ?_
    split
    · exact .pure ⟨hl, trivial⟩
    refine (leaves_lookAhead _ l hl).bind ?_
    intro _ l₁ h₁
    refine (after_blockLine h₁.1.sound).bind ?_
    intro run l₂ h₂
    refine .step rfl ?_
    split
    · exact .pure ⟨h₂.1, trivial⟩
    next hend =>
    have hbreak : isBreak l₂.cursor.peek = true := (Bool.or_eq_true _ _ ▸ h₂.2).resolve_right hend
    refine Keeps.step h₂.1 (h₂.1.cursor.skipBreak hbreak) ?_
    apply Upholds.leave leaves_cursor
    intro c _
    apply Upholds.bind (keeps_blockGap indent _ _)
    intro breaks _
    exact keeps_blockLines literal indent fuel _

theorem takes_blockScalar (literal : Bool) : Takes text (blockScalar literal) fun _ => True := by
  apply Takes.stay leaves_saveKey
  apply Takes.stay (leaves_allowKey true)
  apply Takes.leave leaves_mark
  intro header hheader
  apply Takes.skip
  apply Upholds.stay leaves_unrollNonBlock
  apply Upholds.bind (keeps_blockHeader header)
  intro chomping _
  apply Upholds.seq keeps_skipGap
  apply Upholds.leave leaves_peek
  intro trailing _
  apply Upholds.option (leaves_fail _ _).keeps
  intro l hl
  refine .step rfl (Keeps.overBreak hl ?_)
  apply Upholds.leave leaves_peek
  intro next _
  apply Upholds.option (leaves_fail _ _).keeps
  apply Upholds.leave leaves_get
  intro l _
  extract_lets body
  have hbody : ∀ x, Keeps text (body x) fun _ => True := fun x => by
    apply Upholds.leave leaves_mark
    intro start hstart
    apply Upholds.leave leaves_peek
    intro first _
    split
    · apply Upholds.stay (leaves_push _ hheader)
      exact .pure trivial
    · apply Upholds.option (leaves_failHere _).keeps
      apply Upholds.bind (keeps_blockLines _ _ _ _)
      intro lines _
      apply Upholds.leave leaves_cursor
      intro c _
      exact (leaves_push _ hstart).keeps
  split
  · apply Upholds.bind (keeps_blockGap _ _ _)
    intro gap _
    exact .passOn hbody
  · apply Upholds.bind (keeps_blockLead _ _ _)
    intro lead _
    exact .passOn hbody

end EntityModel.Yaml.OneTwo
