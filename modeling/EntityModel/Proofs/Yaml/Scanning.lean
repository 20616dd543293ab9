import EntityModel.Yaml.OneTwo.Lexer
import EntityModel.Proofs.Yaml.Places
import EntityModel.Proofs.Yaml.Readers
import Mathlib.Data.List.InsertIdx
import Mathlib.Data.List.TakeWhile

/-!
# What the lexer keeps

A lexer is sound for a text if its cursor stands in the text, and so did the cursor at the start of
each token that waits and at each place where a key may have started.  All that the lexer does keeps
it so, since it goes on over content one character at a time, and over breaks only by what counts a
line.
-/

namespace EntityModel.Yaml

open OneTwo

/-! ### The cursor -/

theorem isBreakOrEnd_of_class (p : Char → Bool)
    (hp : ['\n', '\r', endOfText].all (!p ·) = true) {x : Char}
    (hx : p x = true) : isBreakOrEnd x = false := by
  cases hend : isBreakOrEnd x with
  | false => rfl
  | true =>
    have hmem : x ∈ ['\n', '\r', endOfText] := by
      simpa [isBreakOrEnd, isBreak, isEnd, or_assoc] using hend
    simpa [hx] using List.all_eq_true.mp hp x hmem

theorem isEnd_of_isBreak {x : Char} (hx : isBreak x = true) : isEnd x = false := by
  simp only [isBreak, Bool.or_eq_true, beq_iff_eq] at hx
  rcases hx with rfl | rfl <;> decide

namespace Cursor

/-- The cursor stands in the text. -/
structure In (text : List Char) (c : Cursor) : Prop where
  size : c.size = text.length
  stands : Stands text c.mark.line c.mark.column c.rest

variable {text : List Char} {c : Cursor}

theorem in_ofText (text : List Char) : (ofText text).In text := ⟨rfl, .start⟩

theorem In.rest_lt_fuel (h : c.In text) : c.rest.length < c.fuel := by
  have := h.stands.length_le
  rw [fuel, h.size]
  omega

theorem In.pass {c' : Cursor} {run : List Char} (h : c.In text)
    (hrun : ∀ x ∈ run, isBreakOrEnd x = false)
    (hsize : c'.size = c.size) (hrest : c.rest = run ++ c'.rest)
    (hline : c'.mark.line = c.mark.line)
    (hcolumn : c'.mark.column = c.mark.column + run.length) : c'.In text := by
  have hstands := h.stands
  rw [hrest] at hstands
  refine ⟨hsize.trans h.size, ?_⟩
  rw [hline, hcolumn]
  exact hstands.run hrun

theorem In.skipBlanks (h : c.In text) {run rest : List Char} (hrest : c.rest = run ++ rest)
    (hrun : ∀ x ∈ run, isBreakOrEnd x = false) : (c.skipBlanks run.length).In text :=
  h.pass hrun rfl (by simp [Cursor.skipBlanks, hrest]) rfl rfl

theorem exists_of_peek (hpeek : isBreakOrEnd c.peek = false) : ∃ rest, c.rest = c.peek :: rest := by
  unfold peek at *
  cases hrest : c.rest with
  | nil =>
    rw [hrest] at hpeek
    exact absurd (show isBreakOrEnd endOfText = false from hpeek) (by decide)
  | cons x rest => exact ⟨rest, rfl⟩

theorem rest_ne_nil (hpeek : isEnd c.peek = false) : c.rest ≠ [] := by
  intro hrest
  rw [peek, hrest] at hpeek
  exact absurd hpeek (by decide)

theorem In.skipBlank (h : c.In text) (hpeek : isBreakOrEnd c.peek = false) :
    c.skipBlank.In text := by
  obtain ⟨rest, hrest⟩ := exists_of_peek hpeek
  exact h.skipBlanks (show c.rest = [c.peek] ++ rest from hrest)
    (List.forall_mem_singleton.mpr hpeek)

theorem In.skip (h : c.In text) (hpeek : isBreakOrEnd c.peek = false) : c.skip.In text :=
  ⟨h.size, (h.skipBlank hpeek).stands⟩

theorem peekAt_skip (c : Cursor) (i : Nat) : c.skip.peekAt i = c.peekAt (i + 1) := by
  simp [peekAt, skip, skipBlank, Cursor.skipBlanks, List.getD_eq_getElem?_getD]

theorem peekAt_zero (c : Cursor) : c.peekAt 0 = c.peek := by
  cases hrest : c.rest <;> simp [peekAt, peek, hrest]

theorem In.skipMany {n : Nat} (h : c.In text) (hpeek : ∀ i < n, isBreakOrEnd (c.peekAt i) = false) :
    (c.skipMany n).In text := by
  induction n generalizing c with
  | zero => exact h
  | succ n ih =>
    have hfirst := hpeek 0 (Nat.succ_pos n)
    rw [peekAt_zero] at hfirst
    refine ih (h.skip hfirst) fun i hi => ?_
    rw [peekAt_skip]
    exact hpeek (i + 1) (Nat.succ_lt_succ hi)

theorem rest_skipMany (n : Nat) : ∀ c : Cursor, (c.skipMany n).rest = c.rest.drop n := by
  induction n with
  | zero => exact fun c => (List.drop_zero).symm
  | succ n ih =>
    intro c
    rw [skipMany, ih, Nat.add_comm, ← List.drop_drop]
    rfl

theorem In.skipBreak (h : c.In text) (hpeek : isBreak c.peek = true) : c.skipBreak.In text := by
  have hstands := h.stands
  unfold peek at hpeek
  cases hrest : c.rest with
  | nil =>
    rw [hrest] at hpeek
    exact absurd (show isBreak endOfText = true from hpeek) (by decide)
  | cons x rest =>
    rw [hrest] at hstands hpeek
    have hcrlf : (c.peek == '\r' && c.peekAt 1 == '\n')
        = (x == '\r' && rest.headD endOfText == '\n') := by
      cases rest <;> simp [peek, peekAt, hrest]
    unfold Cursor.skipBreak
    dsimp only
    rw [hcrlf]
    cases hboth : x == '\r' && rest.headD endOfText == '\n' with
    | true =>
      rw [Bool.and_eq_true, beq_iff_eq, beq_iff_eq] at hboth
      obtain ⟨rfl, hlf⟩ := hboth
      cases rest with
      | nil => exact absurd (show endOfText = '\n' from hlf) (by decide)
      | cons y rest =>
        obtain rfl : y = '\n' := hlf
        exact ⟨h.size, by simpa [hrest] using hstands.crlf⟩
    | false =>
      refine ⟨h.size, ?_⟩
      have halone : x = '\r' → rest.head? ≠ some '\n' := by
        rintro rfl hhead
        simp [List.headD_eq_head?_getD, hhead] at hboth
      simpa [hrest] using hstands.lineBreak hpeek halone

theorem length_skipBreak (hpeek : isBreak c.peek = true) :
    c.skipBreak.rest.length < c.rest.length := by
  have hne := rest_ne_nil (isEnd_of_isBreak hpeek)
  have := List.length_pos_iff.mpr hne
  unfold Cursor.skipBreak
  split <;> simp <;> omega

theorem In.takeWhile {p : Char → Bool} (h : c.In text)
    (hp : ∀ x, p x = true → isBreakOrEnd x = false) :
    (c.takeWhile p).2.In text := by
  have hrun : ∀ x ∈ c.rest.takeWhile p, isBreakOrEnd x = false :=
    fun x hx => hp x (List.mem_takeWhile_imp hx)
  have := h.skipBlanks (List.takeWhile_append_dropWhile (p := p) (l := c.rest)).symm hrun
  exact ⟨h.size, this.stands⟩

theorem In.skipBlanksWhile {p : Char → Bool} (h : c.In text)
    (hp : ∀ x, p x = true → isBreakOrEnd x = false) :
    (c.skipBlanksWhile p).In text :=
  h.skipBlanks (List.takeWhile_append_dropWhile (p := p) (l := c.rest)).symm fun x hx =>
    hp x (List.mem_takeWhile_imp hx)

theorem repeat_skipBlank (n : Nat) (c : Cursor) : (n.repeat Cursor.skipBlank c).size = c.size ∧
    (n.repeat Cursor.skipBlank c).rest = c.rest.drop n ∧
    (n.repeat Cursor.skipBlank c).mark.line = c.mark.line ∧
    (n.repeat Cursor.skipBlank c).mark.column = c.mark.column + n := by
  induction n with
  | zero => exact ⟨rfl, rfl, rfl, rfl⟩
  | succ n ih =>
    obtain ⟨hsize, hrest, hline, hcolumn⟩ := ih
    refine ⟨hsize, ?_, hline, congrArg (· + 1) hcolumn⟩
    rw [← List.drop_drop, ← hrest]
    rfl

theorem In.repeat_skipBlank {p : Char → Bool} {n : Nat} (h : c.In text)
    (hp : ∀ x, p x = true → isBreakOrEnd x = false)
    (hn : n ≤ (c.rest.takeWhile p).length) : (n.repeat Cursor.skipBlank c).In text := by
  obtain ⟨hsize, hrest, hline, hcolumn⟩ := Cursor.repeat_skipBlank n c
  have hlength : (c.rest.take n).length = n := by
    rw [List.length_take]
    exact Nat.min_eq_left (hn.trans (List.takeWhile_prefix p).length_le)
  have hsplit : c.rest = c.rest.take n ++ (n.repeat Cursor.skipBlank c).rest := by
    rw [hrest, List.take_append_drop]
  refine h.pass (fun x hx => hp x ?_) hsize hsplit hline (by rw [hcolumn, hlength])
  have hbegins : c.rest.take n <+: c.rest.takeWhile p := by
    refine List.prefix_of_prefix_length_le (List.take_prefix n c.rest) (List.takeWhile_prefix p) ?_
    rwa [hlength]
  exact List.mem_takeWhile_imp (hbegins.subset hx)

end Cursor

/-! ### Sound lexers -/

/-- The lexer could stand at the mark. -/
def Marked (text : List Char) (m : Mark) : Prop := ∃ rest, Stands text m.line m.column rest

theorem marked_start (text : List Char) : Marked text {} := ⟨text, .start⟩

structure Lexer.Sound (text : List Char) (l : Lexer) : Prop where
  cursor : l.cursor.In text
  queue : ∀ t ∈ l.queue, Marked text t.start
  keys : ∀ k ∈ l.keys, Marked text k.mark

namespace Lexer.Sound

variable {text : List Char} {l : Lexer}

theorem mark (h : l.Sound text) : Marked text l.cursor.mark := ⟨_, h.cursor.stands⟩

theorem move (h : l.Sound text) {c : Cursor} (hc : c.In text) : Sound text { l with cursor := c } :=
  ⟨hc, h.queue, h.keys⟩

end Lexer.Sound

/-- Sound behind a reader that leaves the cursor where it was. -/
structure Lexer.Stays (text : List Char) (l l' : Lexer) : Prop where
  sound : l'.Sound text
  cursor : l'.cursor = l.cursor

theorem Lexer.Stays.trans {text : List Char} {l₁ l₂ l₃ : Lexer} (h : l₁.Stays text l₂)
    (h' : l₂.Stays text l₃) :
    l₁.Stays text l₃ := ⟨h'.sound, h'.cursor.trans h.cursor⟩

namespace Scan

variable {ε α β : Type} {text : List Char} {P : α → Prop} {Q : β →
  Prop} {x : Scan ε α} {f : α → Scan ε β}

/-- Where a sound lexer goes through `x` it is sound, and `P` holds of the answer. -/
abbrev Keeps (text : List Char) (x : Scan ε α) (P : α → Prop) : Prop :=
  Upholds (Lexer.Sound text) x P

/-- The same, and the cursor is where it was. -/
def Leaves (text : List Char) (x : Scan ε α) (P : α → Prop) : Prop :=
  ∀ l, l.Sound text → After x l fun a l' => l.Stays text l' ∧ P a

/-- The same of a lexer that content stands before. -/
def Takes (text : List Char) (x : Scan ε α) (P : α → Prop) : Prop :=
  ∀ l, l.Sound text → isBreakOrEnd l.cursor.peek = false → After x l fun a l' => l'.Sound text ∧ P a

namespace Leaves

theorem keeps (hx : Leaves text x P) : Keeps text x P :=
  fun l hl => (hx l hl).mono fun _ _ h => ⟨h.1.sound, h.2⟩

theorem pure {a : α} (h : P a) : Leaves text (Pure.pure a : Scan ε α) P :=
  fun _ hl => .pure ⟨⟨hl, rfl⟩, h⟩

theorem bind (hx : Leaves text x P) (hf : ∀ a, P a → Leaves text (f a) Q) :
    Leaves text (x >>= f) Q :=
  fun l hl => (hx l hl).bind fun a l' h => (hf a h.2 l' h.1.sound).mono fun _ _ h' =>
    ⟨h.1.trans h'.1, h'.2⟩

theorem look {f : Lexer → Scan ε β}
    (hf : ∀ l, l.Sound text → After (f l) l fun b l' => l.Stays text l' ∧ Q b) :
    Leaves text (get >>= f) Q := fun l hl => .step rfl (hf l hl)

/-- A reader that goes through to a state with the same cursor. -/
theorem step {l l₁ : Lexer} {a : α} (hx : x l = .ok (a, l₁)) (h : l.Stays text l₁)
    (hf : Leaves text (f a) Q) :
    After (x >>= f) l fun b l' => l.Stays text l' ∧ Q b :=
  .step hx ((hf l₁ h.sound).mono fun _ _ h' => ⟨h.trans h'.1, h'.2⟩)

end Leaves

end Scan

theorem Upholds.leave {ε α β : Type} {text : List Char} {x : Scan ε α} {f : α → Scan ε β}
    {P : α → Prop} {Q : β → Prop}
    (hx : Scan.Leaves text x P) (hf : ∀ a, P a → Scan.Keeps text (f a) Q) :
    Scan.Keeps text (x >>= f) Q := hx.keeps.bind hf

theorem Upholds.stay {ε β : Type} {text : List Char} {x : Scan ε Unit} {f : Unit → Scan ε β}
    {Q : β → Prop}
    (hx : Scan.Leaves text x fun _ => True) (hf : Scan.Keeps text (f ()) Q) :
    Scan.Keeps text (x >>= f) Q :=
  hx.keeps.seq hf

namespace Scan

variable {ε α β : Type} {text : List Char} {P : α → Prop} {Q : β →
  Prop} {x : Scan ε α} {f : α → Scan ε β}

theorem Takes.leave (hx : Leaves text x P) (hf : ∀ a, P a → Takes text (f a) Q) :
    Takes text (x >>= f) Q :=
  fun l hl hpeek => (hx l hl).bind fun a l' h =>
    hf a h.2 l' h.1.sound (by rw [h.1.cursor]; exact hpeek)

theorem Takes.stay {x : Scan ε Unit} {f : Unit → Scan ε β} (hx : Leaves text x fun _ => True)
    (hf : Takes text (f ()) Q) : Takes text (x >>= f) Q := .leave hx fun _ _ => hf

theorem Takes.option {c : Prop} [Decidable c] {x : Scan ε Unit} {f : Unit → Scan ε β}
    (hx : Leaves text x fun _ => True)
    (hf : Takes text (f ()) Q) : Takes text (if c then x >>= f else f ()) Q := by
  split
  · exact .leave hx fun _ _ => hf
  · exact hf

/-! ### What both versions do -/

theorem leaves_get : Leaves (ε := ε) text get fun l => l.Sound text :=
  fun _ hl => .run rfl ⟨⟨hl, rfl⟩, hl⟩

theorem leaves_mark : Leaves (ε := ε) text mark (Marked text) :=
  fun _ hl => .run rfl ⟨⟨hl, rfl⟩, hl.mark⟩

theorem leaves_cursor : Leaves (ε := ε) text cursor fun _ => True :=
  fun _ hl => .run rfl ⟨⟨hl, rfl⟩, trivial⟩

theorem leaves_peek : Leaves (ε := ε) text peek fun _ => True :=
  fun _ hl => .run rfl ⟨⟨hl, rfl⟩, trivial⟩

theorem leaves_modify {g : Lexer → Lexer} (hg : ∀ l : Lexer, l.Sound text → l.Stays text (g l)) :
    Leaves (ε := ε) text (modify g) fun _ => True := fun l hl => .run rfl ⟨hg l hl, trivial⟩

theorem leaves_allowKey (b : Bool) : Leaves (ε := ε) text (allowKey b) fun _ => True :=
  leaves_modify fun _ hl => ⟨⟨hl.cursor, hl.queue, hl.keys⟩, rfl⟩

theorem leaves_push (kind : TokenKind) {start : Mark} (hstart : Marked text start) :
    Leaves (ε := ε) text (push kind start) fun _ => True := by
  refine leaves_modify fun l hl => ⟨⟨hl.cursor, fun t ht => ?_, hl.keys⟩, rfl⟩
  rcases List.mem_append.mp ht with ht | ht
  · exact hl.queue t ht
  · rw [List.mem_singleton.mp ht]
    exact hstart

theorem leaves_insert (number : Nat) (kind : TokenKind) {mark : Mark} (hmark : Marked text mark) :
    Leaves (ε := ε) text (insert number kind mark) fun _ => True := by
  refine leaves_modify fun l hl => ⟨⟨hl.cursor, fun t ht => ?_, hl.keys⟩, rfl⟩
  rcases List.eq_or_mem_of_mem_insertIdx ht with rfl | ht
  · exact hmark
  · exact hl.queue t ht

theorem mem_leave {column : Int} {mark : Mark} (indents : List Indent) : ∀ {indent},
    ∀ t ∈ (leave column mark indent indents).2.2, t.start = mark := by
  induction indents with
  | nil => exact fun t ht => absurd ht List.not_mem_nil
  | cons i indents ih =>
    intro indent t ht
    unfold leave at ht
    split at ht
    · dsimp only at ht
      split at ht
      · rcases List.mem_cons.mp ht with rfl | ht
        · rfl
        · exact ih t ht
      · exact ih t ht
    · exact absurd ht List.not_mem_nil

theorem leaves_unrollIndent (column : Int) :
    Leaves (ε := ε) text (unrollIndent column) fun _ => True := by
  refine leaves_modify fun l hl => ?_
  split
  · exact ⟨hl, rfl⟩
  · refine ⟨⟨hl.cursor, fun t ht => ?_, hl.keys⟩, rfl⟩
    rcases List.mem_append.mp ht with ht | ht
    · exact hl.queue t ht
    · rw [mem_leave l.indents t ht]
      exact hl.mark

theorem leaves_rollIndent (column : Nat) (number : Option Nat) (kind : TokenKind) {mark : Mark}
    (hmark : Marked text mark) :
    Leaves (ε := ε) text (rollIndent column number kind mark) fun _ => True := by
  refine leaves_get.bind fun l _ => ?_
  split
  · exact .pure trivial
  refine (leaves_modify fun l hl => ?_).bind fun _ _ => .look fun l hl => ?_
  · split
    · split
      · exact ⟨⟨hl.cursor, hl.queue, hl.keys⟩, rfl⟩
      · exact ⟨hl, rfl⟩
    · exact ⟨hl, rfl⟩
  split
  · refine Leaves.step rfl ⟨⟨hl.cursor, hl.queue, hl.keys⟩, rfl⟩ ?_
    cases number with
    | some n => exact leaves_insert n kind hmark
    | none =>
      refine leaves_modify fun l hl => ⟨⟨hl.cursor, fun t ht => ?_, hl.keys⟩, rfl⟩
      rcases List.mem_append.mp ht with ht | ht
      · exact hl.queue t ht
      · rw [List.mem_singleton.mp ht]
        exact hmark
  · exact .pure ⟨⟨hl, rfl⟩, trivial⟩

theorem keeps_move {g : Cursor → Cursor} (hg : ∀ c : Cursor, c.In text → (g c).In text) :
    Keeps (ε := ε) text (move g) fun _ => True :=
  fun _ hl => .run rfl ⟨hl.move (hg _ hl.cursor), trivial⟩

theorem keeps_takeWhile {p : Char → Bool} (hp : ∀ x, p x = true → isBreakOrEnd x = false) :
    Keeps (ε := ε) text (takeWhile p) fun _ => True :=
  fun _ hl => .run rfl ⟨hl.move (hl.cursor.takeWhile hp), trivial⟩

theorem Keeps.step {l : Lexer} {g : Cursor → Cursor} {f : Unit → Scan ε β} (hl : l.Sound text)
    (hc : (g l.cursor).In text) (hf : Keeps text (f ()) Q) :
    After (move g >>= f) l fun b l' => l'.Sound text ∧ Q b := .step rfl (hf _ (hl.move hc))

theorem Keeps.overBreak {l : Lexer} {f : Unit → Scan ε β} (hl : l.Sound text)
    (hf : Keeps text (f ()) Q) :
    After (if isBreak l.cursor.peek = true then move Cursor.skipBreak >>= f else f ()) l
      fun b l' => l'.Sound text ∧ Q b := by
  split
  next hbreak => exact Keeps.step hl (hl.cursor.skipBreak hbreak) hf
  · exact hf l hl

theorem Takes.skip {f : Unit → Scan ε β} (hf : Keeps text (f ()) Q) : Takes text (skip >>= f) Q :=
  fun _ hl hpeek => Keeps.step hl (hl.cursor.skip hpeek) hf

end Scan

namespace OneTwo

open Scan

variable {text : List Char}

theorem leaves_fail {α : Type} {P : α → Prop} (cause : LexicalFault) (mark : Mark) :
    Leaves text (fail cause mark) P := fun _ _ => .throw

theorem leaves_failHere {α : Type} {P : α → Prop} (cause : LexicalFault) :
    Leaves text (failHere cause) P :=
  leaves_mark.bind fun m _ => leaves_fail cause m

/-! ### Blanks and comments -/

theorem isBreakOrEnd_of_isBlank {x : Char} (hx : isBlank x = true) : isBreakOrEnd x = false :=
  isBreakOrEnd_of_class isBlank (by decide) hx

theorem keeps_skipComment : Keeps text skipComment fun _ => True :=
  (keeps_takeWhile fun x hx => by simpa using hx).bind fun _ _ => .pure trivial

theorem keeps_skipLineBlanks (tabs : Bool) : Keeps text (skipLineBlanks tabs) fun _ => True := by
  have haccept : ∀ x : Char, (x == ' ' || (tabs && x == '\t')) = true →
      isBreakOrEnd x = false := fun x hx =>
    isBreakOrEnd_of_isBlank (by rw [isBlank]; grind)
  apply Upholds.leave leaves_cursor
  intro c _
  apply Upholds.seq (keeps_move fun c hc => hc.skipBlanksWhile haccept)
  apply Upholds.leave leaves_peek
  intro next _
  split
  · apply Upholds.option (leaves_failHere _).keeps
    apply Upholds.seq keeps_skipComment
    exact .pure trivial
  · exact .pure trivial

theorem keeps_skipGap : Keeps text skipGap fun _ => True :=
  (keeps_skipLineBlanks true).bind fun _ _ => .pure trivial

theorem keeps_skipToToken : ∀ fuel, Keeps text (skipToToken fuel) fun _ => True
  | 0 => .pure trivial
  | fuel + 1 => fun l hl => by
    have ih := keeps_skipToToken fuel
    refine .step rfl ?_
    split
    next hpeek =>
      split
      · refine Upholds.seq keeps_skipGap ?_ l hl
        apply Upholds.leave leaves_peek
        intro next _
        exact .option (leaves_failHere _).keeps ih
      · exact Keeps.step hl (hl.cursor.skipBlank (by rw [hpeek]; rfl)) ih
    next hpeek => exact Keeps.step hl (hl.cursor.skipBlank (by rw [hpeek]; rfl)) ih
    next hpeek =>
      have hbreak := hl.cursor.skipBreak (by rw [hpeek]; rfl)
      exact Keeps.step hl hbreak (.option (leaves_allowKey true).keeps ih)
    next hpeek =>
      have hbreak := hl.cursor.skipBreak (by rw [hpeek]; rfl)
      exact Keeps.step hl hbreak (.option (leaves_allowKey true).keeps ih)
    · exact Upholds.seq keeps_skipComment ih l hl
    · exact .pure ⟨hl, trivial⟩

theorem keeps_skipSpacesAndBreaks :
    ∀ fuel met, Keeps text (skipSpacesAndBreaks fuel met) fun _ => True
  | 0, _ => .pure trivial
  | fuel + 1, met => fun l hl => by
    have ih := keeps_skipSpacesAndBreaks fuel
    refine .step rfl ?_
    split
    next hpeek => exact Keeps.step hl (hl.cursor.skipBlank (by rw [hpeek]; rfl)) (ih true)
    next hpeek =>
      refine Keeps.step hl (hl.cursor.skipBreak (by rw [hpeek]; rfl)) ?_
      apply Upholds.leave leaves_get
      intro l' _
      exact .option (leaves_allowKey true).keeps (ih true)
    next hpeek =>
      refine Keeps.step hl (hl.cursor.skipBreak (by rw [hpeek]; rfl)) ?_
      apply Upholds.leave leaves_get
      intro l' _
      exact .option (leaves_allowKey true).keeps (ih true)
    · exact Upholds.seq keeps_skipComment (ih met) l hl
    · exact .pure ⟨hl, trivial⟩

/-! ### Indentation and pending keys -/

theorem leaves_rollOneColumn : Leaves text rollOneColumn fun _ => True :=
  leaves_modify fun l hl => by
  split
  · split
    · exact ⟨⟨hl.cursor, hl.queue, hl.keys⟩, rfl⟩
    · exact ⟨hl, rfl⟩
  · exact ⟨hl, rfl⟩

theorem leaves_unrollNonBlock : Leaves text unrollNonBlock fun _ => True :=
  leaves_modify fun _ hl => ⟨⟨hl.cursor, hl.queue, hl.keys⟩, rfl⟩

theorem leaves_saveKey : Leaves text saveKey fun _ => True := leaves_modify fun l hl => by
  split
  · exact ⟨⟨hl.cursor, hl.queue,
      List.forall_mem_cons.mpr ⟨hl.mark, fun k hk => hl.keys k (List.mem_of_mem_tail hk)⟩⟩, rfl⟩
  · exact ⟨hl, rfl⟩

theorem leaves_removeKey : Leaves text removeKey fun _ => True := .look fun l hl => by
  split
  next k rest hkeys =>
    have hmarks := List.forall_mem_cons.mp (hkeys ▸ hl.keys)
    refine .guard rfl fun _ => ?_
    exact .run rfl ⟨⟨⟨hl.cursor, hl.queue, List.forall_mem_cons.mpr ⟨hmarks.1, hmarks.2⟩⟩, rfl⟩,
      trivial⟩
  · exact .pure ⟨⟨hl, rfl⟩, trivial⟩

theorem leaves_dropStaleKeys : Leaves text dropStaleKeys fun _ => True := .look fun l hl => by
  split
  · exact .pure ⟨⟨hl, rfl⟩, trivial⟩
  refine .guard rfl fun _ => ?_
  refine .run rfl ⟨⟨⟨hl.cursor, hl.queue, fun k hk => ?_⟩, rfl⟩, trivial⟩
  obtain ⟨k, hmem, rfl⟩ := List.mem_map.mp hk
  split
  · exact hl.keys k hmem
  · exact hl.keys k hmem

theorem leaves_endPair {mark : Mark} (hmark : Marked text mark) :
    Leaves text (endPair mark) fun _ => True :=
  .look fun l hl => by
    split
    · exact Leaves.step rfl ⟨⟨hl.cursor, hl.queue, hl.keys⟩, rfl⟩ (leaves_push _ hmark)
    · exact .pure ⟨⟨hl, rfl⟩, trivial⟩

end OneTwo

end EntityModel.Yaml
