import EntityModel.Text.Words
import Mathlib.Data.List.Chain

/-!
# Splitting a text into words

How `wordsFrom` goes over a text that is put together from others.  A separator always splits
(`wordsFrom_underscore`), characters that are no capitals never do (`wordsFrom_run`), and where
capitals stand it is told from the characters next to them.  Plain names have letters and digits of
ASCII only, so that each character has one capital and one small form.
-/

namespace EntityModel.Text

/-! ### Plain characters -/

/-- A letter or a digit of ASCII. -/
def Plain (c : Char) : Prop := c.isAlphanum = true

theorem isAlpha_iff {c : Char} : c.isAlpha = true ↔ c.isUpper = true ∨ c.isLower = true :=
  Bool.or_eq_true_iff

theorem Plain.toNat_lt {c : Char} (h : Plain c) : c.toNat < 128 := by
  have hle : c.val ≤ 'z'.val := by
    rcases Bool.or_eq_true_iff.mp h with hletter | hdigit
    · rcases isAlpha_iff.mp hletter with hupper | hlower
      · have hZ : c.val ≤ 'Z'.val := (of_decide_eq_true hupper).2
        exact UInt32.le_trans hZ (by decide)
      · exact of_decide_eq_true (Bool.and_eq_true_iff.mp hlower).2
    · have h9 : c.val ≤ '9'.val := of_decide_eq_true (Bool.and_eq_true_iff.mp hdigit).2
      exact UInt32.le_trans h9 (by decide)
  exact Nat.lt_of_le_of_lt (UInt32.le_iff_toNat_le.mp hle) (by decide)

/-- What holds of the characters of ASCII is found by looking at each. -/
theorem forall_ascii {P : Char → Prop} (h : ∀ n : Fin 128, P (Char.ofNat n)) {c : Char}
    (hc : c.toNat < 128) : P c := by
  have := h ⟨c.toNat, hc⟩
  rwa [Char.ofNat_toNat] at this

section Characters

variable {c : Char} (h : Plain c)

include h

theorem Plain.isSeparator : isSeparator c = false :=
  forall_ascii (P := fun c => c.isAlphanum = true → Text.isSeparator c = false)
    (by decide) h.toNat_lt h

theorem Plain.isUppercase : isUppercase c = c.isUpper := by
  rw [Text.isUppercase, if_pos h.toNat_lt]

theorem Plain.isLowercase : isLowercase c = c.isLower := by
  rw [Text.isLowercase, if_pos h.toNat_lt]

theorem Plain.upperOf : upperOf c = [c.toUpper] := by
  rw [Text.upperOf, if_pos h.toNat_lt]

theorem Plain.lowerOf : lowerOf c = [c.toLower] := by
  rw [Text.lowerOf, if_pos h.toNat_lt]

theorem Plain.toUpper : Plain c.toUpper :=
  forall_ascii (P := fun c => c.isAlphanum = true → c.toUpper.isAlphanum = true)
    (by decide) h.toNat_lt h

theorem Plain.toLower : Plain c.toLower :=
  forall_ascii (P := fun c => c.isAlphanum = true → c.toLower.isAlphanum = true)
    (by decide) h.toNat_lt h

theorem Plain.ne_underscore : c ≠ '_' := by
  rintro rfl
  have hnot : ¬ Char.isAlphanum '_' = true := by decide
  exact hnot h

theorem Plain.toUpper_toLower : c.toLower.toUpper = c.toUpper :=
  forall_ascii (P := fun c => c.toLower.toUpper = c.toUpper) (by decide) h.toNat_lt

theorem Plain.toLower_toUpper : c.toUpper.toLower = c.toLower :=
  forall_ascii (P := fun c => c.toUpper.toLower = c.toLower) (by decide) h.toNat_lt

theorem Plain.toLower_toLower : c.toLower.toLower = c.toLower :=
  forall_ascii (P := fun c => c.toLower.toLower = c.toLower) (by decide) h.toNat_lt

theorem Plain.isDigit_toUpper : c.toUpper.isDigit = c.isDigit :=
  forall_ascii (P := fun c => c.toUpper.isDigit = c.isDigit) (by decide) h.toNat_lt

theorem Plain.isUpper_toUpper : c.toUpper.isUpper = c.isAlpha :=
  forall_ascii (P := fun c => c.toUpper.isUpper = c.isAlpha) (by decide) h.toNat_lt

theorem Plain.isLower_toUpper : c.toUpper.isLower = false :=
  forall_ascii (P := fun c => c.toUpper.isLower = false) (by decide) h.toNat_lt

theorem Plain.isUpper_toLower : c.toLower.isUpper = false :=
  forall_ascii (P := fun c => c.toLower.isUpper = false) (by decide) h.toNat_lt

theorem Plain.isLower_toLower : c.toLower.isLower = c.isAlpha :=
  forall_ascii (P := fun c => c.toLower.isLower = c.isAlpha) (by decide) h.toNat_lt

theorem Plain.isLower_or_isDigit : (c.isLower || c.isDigit) = !c.isUpper :=
  forall_ascii (P := fun c => c.isAlphanum = true → (c.isLower || c.isDigit) = !c.isUpper)
    (by decide) h.toNat_lt h

end Characters

/-! ### One step -/

section Steps

variable {c prev : Char} {word rest : List Char}

theorem wordsFrom_separator (h : isSeparator c = true) :
    wordsFrom word (c :: rest) = wordsFrom word [] ++ wordsFrom [] rest := by
  cases word <;> simp [wordsFrom, h]

theorem wordsFrom_first (h : isSeparator c = false) :
    wordsFrom [] (c :: rest) = wordsFrom [c] rest := by
  simp [wordsFrom, h]

theorem wordsFrom_starts (h : isSeparator c = false)
    (hstart : startsWord prev c rest.head? = true) :
    wordsFrom (prev :: word) (c :: rest) = (prev :: word).reverse :: wordsFrom [c] rest := by
  simp [wordsFrom, h, hstart]

theorem wordsFrom_continues (h : isSeparator c = false)
    (hstart : startsWord prev c rest.head? = false) :
    wordsFrom (prev :: word) (c :: rest) = wordsFrom (c :: prev :: word) rest := by
  simp [wordsFrom, h, hstart]

end Steps

/-! ### Texts put together -/

/-- **An underscore splits**: before and behind it the words are those of the two parts. -/
theorem wordsFrom_underscore (x y : List Char) : ∀ word,
    wordsFrom word (x ++ '_' :: y) = wordsFrom word x ++ wordsFrom [] y := by
  have hsep : isSeparator '_' = true := by decide
  induction x with
  | nil => exact fun word => wordsFrom_separator hsep
  | cons c x ih =>
    intro word
    rw [List.cons_append]
    cases hc : isSeparator c with
    | true => rw [wordsFrom_separator hc, wordsFrom_separator hc, ih, List.append_assoc]
    | false =>
      cases word with
      | nil => rw [wordsFrom_first hc, wordsFrom_first hc, ih]
      | cons prev word =>
        -- an underscore is no small letter, so that the capital before it ends a word no more than
        -- at the end
        have hnext : startsWord prev c (x ++ '_' :: y).head? = startsWord prev c x.head? := by
          cases x with
          | nil =>
            have hlower : isLowercase '_' = false := by decide
            simp [startsWord, hlower]
          | cons d x => rfl
        cases hstart : startsWord prev c x.head? with
        | true => rw [wordsFrom_starts hc (hnext.trans hstart), wordsFrom_starts hc hstart, ih,
          List.cons_append]
        | false => rw [wordsFrom_continues hc (hnext.trans hstart),
          wordsFrom_continues hc hstart, ih]

theorem wordsFrom_intercalate (ws : List (List Char)) :
    wordsFrom [] (['_'].intercalate ws) = ws.flatMap (wordsFrom []) := by
  induction ws with
  | nil => rfl
  | cons w ws ih =>
    cases ws with
    | nil => simp [List.intercalate]
    | cons w' ws =>
      rw [List.flatMap_cons, List.intercalate_cons_cons, List.append_assoc, List.singleton_append,
        wordsFrom_underscore, ih]

/-- Characters that are neither separators nor capitals go on with a word. -/
theorem wordsFrom_run {run : List Char}
    (hrun : ∀ c ∈ run, isSeparator c = false ∧ isUppercase c = false)
    (rest : List Char) :
    ∀ {word}, word ≠ [] → wordsFrom word (run ++ rest) = wordsFrom (run.reverse ++ word) rest := by
  induction run with
  | nil => exact fun _ => rfl
  | cons c run ih =>
    rintro (_ | ⟨prev, word⟩) hword
    · exact absurd rfl hword
    obtain ⟨hc, hrun⟩ := List.forall_mem_cons.mp hrun
    have hstart : startsWord prev c (run ++ rest).head? = false := by
      rw [startsWord, hc.2, Bool.false_and]
    rw [List.cons_append, wordsFrom_continues hc.1 hstart, ih hrun (List.cons_ne_nil _ _),
      List.reverse_cons, List.append_assoc, List.singleton_append]

/-! ### What the words hold -/

theorem wordsFrom_ne_nil {word : List Char} (hword : word ≠ []) (cs : List Char) :
    wordsFrom word cs ≠ [] := by
  induction cs generalizing word with
  | nil => simp [wordsFrom, hword]
  | cons c cs ih =>
    obtain ⟨prev, word, rfl⟩ := List.exists_cons_of_ne_nil hword
    cases hc : isSeparator c with
    | true => rw [wordsFrom_separator hc]; simp [wordsFrom]
    | false =>
      cases hstart : startsWord prev c cs.head? with
      | true => rw [wordsFrom_starts hc hstart]; exact List.cons_ne_nil _ _
      | false => rw [wordsFrom_continues hc hstart]; exact ih (List.cons_ne_nil _ _)

/-- A word is not empty, and what holds of the characters behind separators holds of those of the
words. -/
theorem forall_wordsFrom {P : Char → Prop} (cs : List Char)
    (hcs : ∀ c ∈ cs, isSeparator c = false → P c) :
    ∀ word, (∀ c ∈ word, P c) → ∀ w ∈ wordsFrom word cs, w ≠ [] ∧ ∀ c ∈ w, P c := by
  have hlast : ∀ word : List Char, (∀ c ∈ word, P c) → ∀ w ∈ wordsFrom word [], w ≠ [] ∧
      ∀ c ∈ w, P c := by
    rintro (_ | ⟨prev, word⟩) hword w hw
    · exact absurd hw List.not_mem_nil
    · obtain rfl := List.mem_singleton.mp hw
      exact ⟨by simp, fun c hc => hword c (List.mem_reverse.mp hc)⟩
  induction cs with
  | nil => exact hlast
  | cons c cs ih =>
    intro word hword
    obtain ⟨hc, hcs⟩ := List.forall_mem_cons.mp hcs
    specialize ih hcs
    cases hsep : isSeparator c with
    | true =>
      rw [wordsFrom_separator hsep]
      intro w hw
      exact (List.mem_append.mp hw).elim (hlast word hword w) (ih [] (List.forall_mem_nil _) w)
    | false =>
      have hone : ∀ d ∈ [c], P d := List.forall_mem_singleton.mpr (hc hsep)
      cases word with
      | nil => rw [wordsFrom_first hsep]; exact ih _ hone
      | cons prev word =>
        cases hstart : startsWord prev c cs.head? with
        | true =>
          rw [wordsFrom_starts hsep hstart]
          exact List.forall_mem_cons.mpr
            ⟨hlast (prev :: word) hword _ (List.mem_singleton.mpr rfl), ih _ hone⟩
        | false =>
          rw [wordsFrom_continues hsep hstart]
          exact ih _ (List.forall_mem_cons.mpr ⟨hc hsep, hword⟩)

/-- Where nothing separates, the words together are the text, and all but the first start with a
capital. -/
theorem wordsFrom_letters {cs : List Char} (hcs : ∀ c ∈ cs, isSeparator c = false) :
    ∀ {word}, word ≠ [] →
    ∃ more later, wordsFrom word cs = (word.reverse ++ more) :: later ∧ more ++ later.flatten = cs ∧
      ∀ w ∈ later, w.head?.any isUppercase = true := by
  induction cs with
  | nil =>
    intro word hword
    exact ⟨[], [], by simp [wordsFrom, hword], rfl, List.forall_mem_nil _⟩
  | cons c cs ih =>
    rintro (_ | ⟨prev, word⟩) hword
    · exact absurd rfl hword
    obtain ⟨hc, hcs⟩ := List.forall_mem_cons.mp hcs
    cases hstart : startsWord prev c cs.head? with
    | true =>
      obtain ⟨more, later, heq, hflat, hlater⟩ := ih hcs (List.cons_ne_nil c [])
      have hcapital : isUppercase c = true := (Bool.and_eq_true_iff.mp hstart).1
      refine ⟨[], (c :: more) :: later, ?_, ?_, List.forall_mem_cons.mpr ⟨hcapital, hlater⟩⟩
      · rw [wordsFrom_starts hc hstart, heq, List.append_nil]
        rfl
      · rw [List.nil_append, List.flatten_cons, List.cons_append, hflat]
    | false =>
      obtain ⟨more, later, heq, hflat, hlater⟩ := ih hcs (List.cons_ne_nil c (prev :: word))
      refine ⟨c :: more, later, ?_, by rw [List.cons_append, hflat], hlater⟩
      rw [wordsFrom_continues hc hstart, heq, List.reverse_cons, List.append_assoc,
        List.singleton_append]

end EntityModel.Text
