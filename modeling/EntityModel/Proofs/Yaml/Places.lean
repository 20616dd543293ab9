import EntityModel.Text.Characters
import EntityModel.Yaml.OneTwo.Lexer
import Mathlib.Data.List.Basic

/-!
# Places in a text

The lexer counts lines by the breaks that it comes past: LF, CR LF, and CR alone.  `Stands` says
where it can stand in a text, one rule for each way of going on.  The lines of a file end at LF and
CR LF only, so that both agree on a text that has no CR alone (`Stands.inLines`).
-/

namespace EntityModel.Text

/-! ### Lines

A line ends at LF and at CR LF.  Lines hold no LF, and lines without CR are read back from the text
that they are joined to (`lines_joined`).
-/

theorem linesFrom_crlf (line rest : List Char) :
    linesFrom ('\r' :: line) ('\n' :: rest) = line.reverse :: linesFrom [] rest := by
  rw [linesFrom]

theorem linesFrom_lf {line : List Char} (h : line.head? ≠ some '\r') (rest : List Char) :
    linesFrom line ('\n' :: rest) = line.reverse :: linesFrom [] rest := by
  cases line with
  | nil => rfl
  | cons x line =>
    have hx : x ≠ '\r' := fun hx => h (congrArg some hx)
    simp [linesFrom, hx]

theorem linesFrom_char {y : Char} (h : y ≠ '\n') (line rest : List Char) :
    linesFrom line (y :: rest) = linesFrom (y :: line) rest := by
  rw [linesFrom]
  exact h

/-- The line that has begun keeps what was read of it, except for a CR that a LF comes behind. -/
theorem linesFrom_prefix (rest : List Char) : ∀ {line : List Char}, line ≠ [] →
    ∃ first later, linesFrom line rest = first :: later ∧ line.tail.reverse <+: first ∧
      ((line.head? = some '\r' → rest.head? ≠ some '\n') → line.reverse <+: first) := by
  have htail : ∀ x (line : List Char), line.reverse <+: (x :: line).reverse := fun x line => by
    rw [List.reverse_cons]
    exact List.prefix_append _ _
  induction rest with
  | nil =>
    rintro (_ | ⟨x, line⟩) hne
    · exact absurd rfl hne
    · exact ⟨(x :: line).reverse, [], rfl, htail x line, fun _ => List.prefix_rfl⟩
  | cons y rest ih =>
    rintro (_ | ⟨x, line⟩) hne
    · exact absurd rfl hne
    by_cases hy : y = '\n'
    · subst hy
      by_cases hx : x = '\r'
      · subst hx
        exact ⟨line.reverse, _, linesFrom_crlf line rest, List.prefix_rfl,
          fun h => absurd rfl (h rfl)⟩
      · have hhead : (x :: line).head? ≠ some '\r' := fun h => hx (Option.some.inj h)
        exact ⟨(x :: line).reverse, _, linesFrom_lf hhead rest, htail x line,
          fun _ => List.prefix_rfl⟩
    · obtain ⟨first, later, heq, hbegins, -⟩ := ih (List.cons_ne_nil y (x :: line))
      exact ⟨first, later, (linesFrom_char hy _ rest).trans heq, (htail x line).trans hbegins,
        fun _ => hbegins⟩

theorem lf_not_mem_linesFrom (rest : List Char) : ∀ {line : List Char}, '\n' ∉ line →
    ∀ l ∈ linesFrom line rest, '\n' ∉ l := by
  induction rest with
  | nil =>
    intro line hline l hl
    unfold linesFrom at hl
    split at hl
    · exact absurd hl List.not_mem_nil
    · rw [List.mem_singleton.mp hl, List.mem_reverse]
      exact hline
  | cons y rest ih =>
    intro line hline l hl
    by_cases hy : y = '\n'
    · subst hy
      have hlater : ∀ l ∈ linesFrom [] rest, '\n' ∉ l := ih List.not_mem_nil
      by_cases hcr : line.head? = some '\r'
      · obtain ⟨begun, rfl⟩ := List.head?_eq_some_iff.mp hcr
        rw [linesFrom_crlf] at hl
        rcases List.mem_cons.mp hl with rfl | hl
        · rw [List.mem_reverse]
          exact fun h => hline (List.mem_cons_of_mem _ h)
        · exact hlater l hl
      · rw [linesFrom_lf hcr] at hl
        rcases List.mem_cons.mp hl with rfl | hl
        · rwa [List.mem_reverse]
        · exact hlater l hl
    · rw [linesFrom_char hy] at hl
      exact ih (List.not_mem_cons_of_ne_of_not_mem (Ne.symm hy) hline) l hl

theorem linesFrom_append {line : List Char} (hlf : '\n' ∉ line) (hcr : '\r' ∉ line)
    (rest : List Char) :
    ∀ {begun : List Char}, '\r' ∉ begun →
      linesFrom begun (line ++ '\n' :: rest) = (begun.reverse ++ line) :: linesFrom [] rest := by
  induction line with
  | nil =>
    intro begun hbegun
    rw [List.nil_append, List.append_nil, linesFrom_lf fun h => hbegun (List.mem_of_mem_head? h)]
  | cons x line ih =>
    intro begun hbegun
    rw [List.mem_cons, not_or] at hlf hcr
    rw [List.cons_append, linesFrom_char (Ne.symm hlf.1),
      ih hlf.2 hcr.2 (List.not_mem_cons_of_ne_of_not_mem hcr.1 hbegun)]
    simp

theorem lines_joined {ls : List (List Char)} (hlf : ∀ l ∈ ls, '\n' ∉ l) (hcr : ∀ l ∈ ls, '\r' ∉ l) :
    lines (ls.flatMap (· ++ ['\n'])) = ls := by
  induction ls with
  | nil => rfl
  | cons l ls ih =>
    rw [List.forall_mem_cons] at hlf hcr
    rw [List.flatMap_cons, List.append_assoc, lines, List.singleton_append,
      linesFrom_append hlf.1 hcr.1 _ List.not_mem_nil]
    exact congrArg (l :: ·) (ih hlf.2 hcr.2)

end EntityModel.Text

namespace EntityModel.Yaml

/-! ### Where the lexer stands -/

open OneTwo

/-- Behind the read part of `text` the lexer stands before `rest`, in a line and a column. -/
inductive Stands (text : List Char) : Nat → Nat → List Char → Prop
  | start : Stands text 0 0 text
  | content {line column : Nat} {x : Char} {rest : List Char} :
      Stands text line column (x :: rest) → isBreakOrEnd x = false →
      Stands text line (column + 1) rest
  | lineBreak {line column : Nat} {x : Char} {rest : List Char} :
      Stands text line column (x :: rest) → isBreak x = true → (x = '\r' → rest.head? ≠ some '\n') →
      Stands text (line + 1) 0 rest
  | crlf {line column : Nat} {rest : List Char} :
      Stands text line column ('\r' :: '\n' :: rest) → Stands text (line + 1) 0 rest
  /-- The end of a text counts as the start of a line. -/
  | ended {line column : Nat} {rest : List Char} :
      Stands text line column rest → column ≠ 0 → isEnd (rest.headD endOfText) = true →
      Stands text (line + 1) 0 rest

/-- A place in lines: in one of them, or at the start of the line behind them. -/
def InLines (lines : List (List Char)) (line column : Nat) : Prop :=
  (∃ l, lines[line]? = some l ∧ column ≤ l.length) ∨ (line = lines.length ∧ column = 0)

namespace Stands

variable {text rest : List Char} {line column : Nat}

theorem length_le (h : Stands text line column rest) : rest.length ≤ text.length := by
  induction h with
  | start => exact Nat.le_refl _
  | content _ _ ih => exact Nat.le_of_succ_le ih
  | lineBreak _ _ _ ih => exact Nat.le_of_succ_le ih
  | crlf _ ih => exact Nat.le_of_succ_le (Nat.le_of_succ_le ih)
  | ended _ _ _ ih => exact ih

theorem run {run : List Char} (h : Stands text line column (run ++ rest))
    (hrun : ∀ x ∈ run, isBreakOrEnd x = false) :
    Stands text line (column + run.length) rest := by
  induction run generalizing column with
  | nil => exact h
  | cons x run ih =>
    obtain ⟨hx, hrun⟩ := List.forall_mem_cons.mp hrun
    have := ih (h.content hx) hrun
    rwa [Nat.add_right_comm, Nat.add_assoc] at this

/-- Where the lexer stands, the lines before are read, and a part of the line there: unless the text
has ended. -/
theorem splits (hcr : ∀ l ∈ Text.lines text, '\r' ∉ l) (h : Stands text line column rest) :
    (∃ before begun, Text.lines text = before ++ Text.linesFrom begun rest ∧ before.length = line
        ∧ begun.length = column ∧ '\r' ∉ begun)
      ∨ (isEnd (rest.headD endOfText) = true ∧ line ≤ (Text.lines text).length ∧ column = 0) := by
  induction h with
  | start => exact .inl ⟨[], [], rfl, rfl, rfl, List.not_mem_nil⟩
  | @content line column x rest _ hx ih =>
    have hend : isEnd x = false := (Bool.or_eq_false_iff.mp hx).2
    rcases ih with ⟨before, begun, hlines, hline, hcolumn, hbegun⟩ | ⟨hended, -, -⟩
    · have hlf : x ≠ '\n' := by
        rintro rfl
        exact absurd hx (by decide)
      have hnot : '\r' ≠ x := by
        rintro rfl
        exact absurd hx (by decide)
      exact .inl ⟨before, x :: begun, by
        rw [hlines, Text.linesFrom_char hlf], hline, by
          rw [List.length_cons, hcolumn], List.not_mem_cons_of_ne_of_not_mem hnot hbegun⟩
    · exact absurd hended (by simp [hend])
  | @lineBreak line column x rest _ hx halone ih =>
    rcases ih with ⟨before, begun, hlines, hline, hcolumn, hbegun⟩ | ⟨hended, -, -⟩
    · by_cases hlf : x = '\n'
      · subst hlf
        refine .inl ⟨before ++ [begun.reverse], [], ?_, by simp [hline], rfl, List.not_mem_nil⟩
        rw [hlines, List.append_assoc, Text.linesFrom_lf fun h => hbegun (List.mem_of_mem_head? h)]
        rfl
      · -- a CR alone would be in a line
        have hcr' : x = '\r' := by
          simp only [isBreak, Bool.or_eq_true, beq_iff_eq] at hx
          exact hx.resolve_left hlf
        subst hcr'
        obtain ⟨first, later, heq, -, hbegins⟩ := Text.linesFrom_prefix rest
          (List.cons_ne_nil '\r' begun)
        have hmem : '\r' ∈ first := (hbegins fun _ => halone rfl).subset (by simp)
        refine absurd hmem (hcr first ?_)
        rw [hlines, Text.linesFrom_char (by decide), heq]
        exact List.mem_append_right _ List.mem_cons_self
    · have hend : isEnd x = false := by
        simp only [isBreak, Bool.or_eq_true, beq_iff_eq] at hx
        rcases hx with rfl | rfl <;> decide
      exact absurd hended (by simp [hend])
  | @crlf line column rest _ ih =>
    rcases ih with ⟨before, begun, hlines, hline, hcolumn, hbegun⟩ | ⟨hended, -, -⟩
    · refine .inl ⟨before ++ [begun.reverse], [], ?_, by simp [hline], rfl, List.not_mem_nil⟩
      rw [hlines, List.append_assoc, Text.linesFrom_char (by decide), Text.linesFrom_crlf]
      rfl
    · exact absurd (show isEnd '\r' = true from hended) (by decide)
  | @ended line column rest _ hcolumn hend ih =>
    rcases ih with ⟨before, begun, hlines, hline, hbegun, -⟩ | ⟨-, -, hzero⟩
    · have hne : begun ≠ [] := fun h => hcolumn (by rw [← hbegun, h]; rfl)
      obtain ⟨first, later, heq, -⟩ := Text.linesFrom_prefix rest hne
      refine .inr ⟨hend, ?_, rfl⟩
      rw [hlines, heq, List.length_append, hline, List.length_cons]
      omega
    · exact absurd hzero hcolumn

/-- **Places of the lexer are places in the lines of the file**, if no line holds a CR. -/
theorem inLines (hcr : ∀ l ∈ Text.lines text, '\r' ∉ l) (h : Stands text line column rest) :
    InLines (Text.lines text) line column := by
  rcases splits hcr h with ⟨before, begun, hlines, hline, hcolumn, hbegun⟩ | ⟨-, hline, hcolumn⟩
  · cases begun with
    | nil =>
      cases hlater : Text.linesFrom [] rest with
      | nil => exact .inr ⟨by rw [hlines, hlater, List.append_nil, hline], hcolumn.symm⟩
      | cons l later =>
        refine .inl ⟨l, ?_, by rw [← hcolumn]; exact Nat.zero_le _⟩
        rw [hlines, hlater, ← hline, List.getElem?_append_right (Nat.le_refl _), Nat.sub_self]
        rfl
    | cons x begun =>
      obtain ⟨first, later, heq, -, hbegins⟩ :=
        Text.linesFrom_prefix rest (List.cons_ne_nil x begun)
      refine .inl ⟨first, ?_, ?_⟩
      · rw [hlines, heq, ← hline, List.getElem?_append_right (Nat.le_refl _), Nat.sub_self]
        rfl
      · have hx : x ≠ '\r' := fun hx => hbegun (hx ▸ List.mem_cons_self)
        have hle := (hbegins fun h => absurd (Option.some.inj h) hx).length_le
        rwa [List.length_reverse, hcolumn] at hle
  · rcases Nat.lt_or_eq_of_le hline with hlt | heq
    · exact .inl ⟨_, List.getElem?_eq_getElem hlt, by rw [hcolumn]; exact Nat.zero_le _⟩
    · exact .inr ⟨heq, hcolumn⟩

end Stands

end EntityModel.Yaml
