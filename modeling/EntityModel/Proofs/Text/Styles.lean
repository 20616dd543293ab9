import EntityModel.Proofs.Text.Words

/-!
# Names in different styles

Every style is put together from the words of a name in small letters, so that a name can be written
in any style from any other as long as that one lets its words be told apart (`Style.Keeps`).  Snake
case always does.  Capitals alone do not separate a digit from a small letter, and words written one
behind the other show where they start only by a capital next to something else.
-/

namespace EntityModel.Text

/-! ### Styles -/

inductive Style
  | constant
  | snake
  | pascal
  | camel

def Style.write : Style → String → String
  | constant => constantCase
  | snake => snakeCase
  | pascal => pascalCase
  | camel => camelCase

def capital : List Char → List Char
  | [] => []
  | c :: cs => c.toUpper :: cs.map Char.toLower

def Style.put : Style → List (List Char) → List Char
  | constant, ws => ['_'].intercalate (ws.map (·.map Char.toUpper))
  | snake, ws => ['_'].intercalate (ws.map (·.map Char.toLower))
  | pascal, ws => ws.flatMap capital
  | camel, [] => []
  | camel, w :: ws => w.map Char.toLower ++ ws.flatMap capital

def startsInLetter (w : List Char) : Bool := w.head?.any Char.isAlpha

/-- Written behind `w` with capitals, `w'` shows where it starts: by a capital that something other
than a capital is next to. -/
def toldApart (w w' : List Char) : Bool :=
  startsInLetter w' && (!(startsInLetter w && w.length == 1) || startsInLetter w'.tail)

/-- No small letter stands directly behind a digit. -/
def DigitsApart (cs : List Char) : Prop :=
  cs.IsChain fun a b => ¬(a.isDigit = true ∧ b.isLower = true)

def LettersApart (cs : List Char) : Prop :=
  cs.IsChain fun a b => ¬(a.isDigit = true ∧ b.isAlpha = true)

/-- The words can be told apart when a name is written in the style. -/
def Style.Keeps (ws : List (List Char)) : Style → Prop
  | constant => ∀ w ∈ ws, LettersApart w
  | snake => True
  | pascal => ws.IsChain (toldApart · ·)
  | camel =>
    -- the first word has no capital, so that any capital behind it shows
    (∀ w ∈ ws.tail.head?, startsInLetter w = true) ∧ ws.tail.IsChain (toldApart · ·)

/-! ### Styles of plain words -/

variable {w : List Char} {ws : List (List Char)}

def PlainName (cs : List Char) : Prop := ∀ c ∈ cs, Plain c ∨ c = '_'

/-- What the words of a plain name are. -/
def PlainWords (ws : List (List Char)) : Prop := ∀ w ∈ ws, w ≠ [] ∧ ∀ c ∈ w, Plain c

theorem upper_ofList (hw : ∀ c ∈ w, Plain c) :
    upper (String.ofList w) = String.ofList (w.map Char.toUpper) := by
  rw [upper, String.toList_ofList]
  congr 1
  induction w with
  | nil => rfl
  | cons c w ih =>
    obtain ⟨hc, hw⟩ := List.forall_mem_cons.mp hw
    rw [List.flatMap_cons, hc.upperOf, ih hw]
    rfl

theorem lowerFrom_plain (hw : ∀ c ∈ w, Plain c) :
    ∀ passed, lowerFrom passed w = w.map Char.toLower := by
  induction w with
  | nil => exact fun _ => rfl
  | cons c w ih =>
    intro passed
    obtain ⟨hc, hw⟩ := List.forall_mem_cons.mp hw
    have hsigma : (c == 'Σ') = false := by
      rw [beq_eq_false_iff_ne]
      rintro rfl
      exact absurd hc.toNat_lt (by decide)
    rw [lowerFrom, hsigma, ih hw]
    simp [hc.lowerOf]

theorem lower_ofList (hw : ∀ c ∈ w, Plain c) :
    lower (String.ofList w) = String.ofList (w.map Char.toLower) := by
  rw [lower, String.toList_ofList, lowerFrom_plain hw]

theorem upperFirst_lower_ofList (hw : ∀ c ∈ w, Plain c) :
    upperFirst (lower (String.ofList w)) = String.ofList (capital w) := by
  rw [lower_ofList hw]
  cases w with
  | nil => rfl
  | cons c w =>
    have hc := (List.forall_mem_cons.mp hw).1
    rw [List.map_cons, upperFirst, String.toList_ofList]
    simp only [hc.toLower.upperOf, hc.toUpper_toLower]
    rfl

theorem map_words {s : String} {f : String → String} {g : List Char → List Char}
    (hplain : PlainWords (wordsFrom [] s.toList))
    (h : ∀ w, (∀ c ∈ w, Plain c) → f (String.ofList w) = String.ofList (g w)) :
    ((words s).map f).map String.toList = (wordsFrom [] s.toList).map g := by
  rw [words, List.map_map, List.map_map, List.map_congr_left fun w hw => ?_]
  simp [h w (hplain w hw).2]

theorem toList_write (g : Style) {s : String} (hplain : PlainWords (wordsFrom [] s.toList)) :
    (g.write s).toList = g.put (wordsFrom [] s.toList) := by
  have hpascal : (pascalCase s).toList = (wordsFrom [] s.toList).flatMap capital := by
    rw [pascalCase, String.toList_join, List.flatMap_def,
      map_words hplain fun w => upperFirst_lower_ofList, ← List.flatMap_def]
  cases g with
  | constant =>
    rw [Style.write, constantCase, String.toList_intercalate,
      map_words hplain fun w => upper_ofList]
    rfl
  | snake =>
    rw [Style.write, snakeCase, String.toList_intercalate, map_words hplain fun w => lower_ofList]
    rfl
  | pascal => exact hpascal
  | camel =>
    rw [Style.write, camelCase, lowerFirst, hpascal]
    cases hwords : wordsFrom [] s.toList with
    | nil => rfl
    | cons w ws =>
      obtain ⟨hne, hw⟩ := hplain w (hwords ▸ List.mem_cons_self)
      obtain ⟨c, w, rfl⟩ := List.exists_cons_of_ne_nil hne
      have hc := (List.forall_mem_cons.mp hw).1
      simp [Style.put, capital, hc.toUpper.lowerOf, hc.toLower_toUpper]

/-! ### Words behind words -/

/-- Behind `prev` a word with a capital first shows where it starts. -/
def showsBehind (prev : Char) (w : List Char) : Bool :=
  startsInLetter w && (!prev.isUpper || startsInLetter w.tail)

def ShowBehind (prev : Char) (ws : List (List Char)) : Prop :=
  (∀ w ∈ ws.head?, showsBehind prev w = true) ∧ ws.IsChain (toldApart · ·)

theorem PlainWords.cons (hws : PlainWords (w :: ws)) :
    (∃ c cs, w = c :: cs ∧ Plain c ∧ ∀ d ∈ cs, Plain d) ∧ PlainWords ws := by
  obtain ⟨⟨hne, hw⟩, hlater⟩ := List.forall_mem_cons.mp hws
  obtain ⟨c, cs, rfl⟩ := List.exists_cons_of_ne_nil hne
  exact ⟨⟨c, cs, rfl, List.forall_mem_cons.mp hw⟩, hlater⟩

theorem forall_toLower (hw : ∀ c ∈ w, Plain c) :
    ∀ c ∈ w.map Char.toLower, isSeparator c = false ∧ isUppercase c = false :=
  List.forall_mem_map.mpr fun c hc =>
    ⟨(hw c hc).toLower.isSeparator, (hw c hc).toLower.isUppercase.trans (hw c hc).isUpper_toLower⟩

theorem any_isLowercase_capitals (hws : PlainWords ws) :
    (ws.flatMap capital).head?.any isLowercase = false := by
  cases ws with
  | nil => rfl
  | cons w ws =>
    obtain ⟨⟨c, cs, rfl, hc, -⟩, -⟩ := hws.cons
    simp [capital, hc.toUpper.isLowercase, hc.isLower_toUpper]

theorem startsWord_capital {prev c : Char} {cs : List Char} (hprev : Plain prev) (hc : Plain c)
    (hcs : ∀ d ∈ cs, Plain d) (hws : PlainWords ws) :
    startsWord prev c.toUpper (cs.map Char.toLower ++ ws.flatMap capital).head?
      = showsBehind prev (c :: cs) := by
  have hnext : (cs.map Char.toLower ++ ws.flatMap capital).head?.any isLowercase
      = startsInLetter cs := by
    cases cs with
    | nil => exact any_isLowercase_capitals hws
    | cons d cs =>
      have hd := hcs d List.mem_cons_self
      simp [startsInLetter, hd.toLower.isLowercase, hd.isLower_toLower]
  rw [startsWord, hnext, hc.toUpper.isUppercase, hc.isUpper_toUpper, hprev.isLowercase,
    hprev.isUppercase, hprev.isLower_or_isDigit, showsBehind]
  cases prev.isUpper <;> simp [startsInLetter]

theorem isUpper_last_capital {c : Char} {cs : List Char} (hc : Plain c) (hcs : ∀ d ∈ cs, Plain d) :
    ∃ last word, (capital (c :: cs)).reverse = last :: word ∧ Plain last
      ∧ last.isUpper = (startsInLetter (c :: cs) && (c :: cs).length == 1) := by
  rcases List.eq_nil_or_concat cs with rfl | ⟨cs, d, rfl⟩
  · exact ⟨c.toUpper, [], rfl, hc.toUpper, by simp [startsInLetter, hc.isUpper_toUpper]⟩
  · have hd := hcs d (by simp)
    exact ⟨d.toLower, _, by simp [capital]; rfl, hd.toLower, by simp [hd.isUpper_toLower]⟩

/-- **Words behind a word**: with capitals they are split again exactly if each shows where it
starts, and there are fewer words if not. -/
theorem wordsFrom_capitals (hws : PlainWords ws) : ∀ {prev} word, Plain prev →
    (ShowBehind prev ws →
      wordsFrom (prev :: word) (ws.flatMap capital) = (prev :: word).reverse :: ws.map capital)
    ∧ (¬ ShowBehind prev ws →
      (wordsFrom (prev :: word) (ws.flatMap capital)).length ≤ ws.length) := by
  induction ws with
  | nil => exact fun _ _ => ⟨fun _ => rfl, fun h => absurd ⟨by simp, .nil⟩ h⟩
  | cons w ws ih =>
    intro prev word hprev
    obtain ⟨⟨c, cs, rfl, hc, hcs⟩, hplainLater⟩ := hws.cons
    have hstart := startsWord_capital hprev hc hcs hplainLater
    have hrun : ∀ word, wordsFrom (c.toUpper :: word) (cs.map Char.toLower ++ ws.flatMap capital)
        = wordsFrom ((capital (c :: cs)).reverse ++ word) (ws.flatMap capital) := fun word => by
      rw [wordsFrom_run (forall_toLower hcs) _ (List.cons_ne_nil _ _)]
      simp [capital]
    obtain ⟨last, before, hlast, hplain, hupper⟩ := isUpper_last_capital hc hcs
    rw [hlast] at hrun
    have hchain : ShowBehind prev ((c :: cs) :: ws) ↔ showsBehind prev (c :: cs) = true ∧
        ShowBehind last ws := by
      simp only [ShowBehind, List.isChain_cons, toldApart, showsBehind, hupper, List.head?_cons,
        Option.mem_some_iff, forall_eq']
    have hflat : ((c :: cs) :: ws).flatMap capital
        = c.toUpper :: (cs.map Char.toLower ++ ws.flatMap capital) := by
      rw [List.flatMap_cons]
      rfl
    rw [hchain, hflat, List.map_cons]
    cases hshows : showsBehind prev (c :: cs) with
    | true =>
      rw [wordsFrom_starts hc.toUpper.isSeparator (hstart.trans hshows), hrun [], List.append_nil]
      obtain ⟨hall, hfew⟩ := ih hplainLater before hplain
      refine ⟨fun h => ?_, fun h => ?_⟩
      · rw [hall h.2, ← hlast, List.reverse_reverse]
      · exact Nat.succ_le_succ (hfew fun hlater => h ⟨rfl, hlater⟩)
    | false =>
      rw [wordsFrom_continues hc.toUpper.isSeparator (hstart.trans hshows), hrun]
      obtain ⟨hall, hfew⟩ := ih hplainLater (before ++ prev :: word) hplain
      refine ⟨fun h => absurd h.1 Bool.false_ne_true, fun _ => ?_⟩
      by_cases hlater : ShowBehind last ws
      · simp [hall hlater]
      · exact Nat.le_succ_of_le (hfew hlater)

/-! ### Words in capitals -/

/-- **A word in capitals** is split again behind each digit that a letter comes after, and nowhere
else. -/
theorem wordsFrom_upper {cs : List Char} (hcs : ∀ c ∈ cs, Plain c) : ∀ {prev} word, Plain prev →
    ((wordsFrom (prev.toUpper :: word) (cs.map Char.toUpper)).length = 1 ↔
      LettersApart (prev :: cs)) := by
  induction cs with
  | nil => exact fun _ _ => ⟨fun _ => .singleton _, fun _ => rfl⟩
  | cons c cs ih =>
    intro prev word hprev
    obtain ⟨hc, hcs⟩ := List.forall_mem_cons.mp hcs
    have hnext : (cs.map Char.toUpper).head?.any isLowercase = false := by
      cases cs with
      | nil => rfl
      | cons d cs =>
        have hd := hcs d List.mem_cons_self
        simp [hd.toUpper.isLowercase, hd.isLower_toUpper]
    have hstart : startsWord prev.toUpper c.toUpper (cs.map Char.toUpper).head?
        = (prev.isDigit && c.isAlpha) := by
      rw [startsWord, hnext, hc.toUpper.isUppercase, hc.isUpper_toUpper, hprev.toUpper.isLowercase,
        hprev.isLower_toUpper, hprev.isDigit_toUpper, Bool.and_false, Bool.or_false, Bool.false_or,
        Bool.and_comm]
    rw [List.map_cons, LettersApart, List.isChain_cons_cons, ← Bool.and_eq_true]
    cases hcut : prev.isDigit && c.isAlpha with
    | true =>
      rw [wordsFrom_starts hc.toUpper.isSeparator (hstart.trans hcut), List.length_cons]
      have hlater :=
        List.length_pos_iff.mpr
          (wordsFrom_ne_nil (List.cons_ne_nil c.toUpper []) (cs.map Char.toUpper))
      exact ⟨fun h => by omega, fun h => absurd rfl h.1⟩
    | false =>
      rw [wordsFrom_continues hc.toUpper.isSeparator (hstart.trans hcut), ih hcs _ hc]
      simp [LettersApart]

theorem wordsFrom_upper_iff (hne : w ≠ []) (hw : ∀ c ∈ w, Plain c) :
    ((wordsFrom [] (w.map Char.toUpper)).length = 1 ↔ LettersApart w)
    ∧ (LettersApart w → wordsFrom [] (w.map Char.toUpper) = [w.map Char.toUpper]) := by
  obtain ⟨c, cs, rfl⟩ := List.exists_cons_of_ne_nil hne
  obtain ⟨hc, hcs⟩ := List.forall_mem_cons.mp hw
  rw [List.map_cons, wordsFrom_first hc.toUpper.isSeparator]
  have hiff := wordsFrom_upper hcs [] hc
  have hsep : ∀ d ∈ cs.map Char.toUpper, isSeparator d = false :=
    List.forall_mem_map.mpr fun d hd => (hcs d hd).toUpper.isSeparator
  obtain ⟨more, later, heq, hflat, -⟩ := wordsFrom_letters hsep (List.cons_ne_nil c.toUpper [])
  refine ⟨hiff, fun h => ?_⟩
  have hone := hiff.mpr h
  rw [heq, List.length_cons, Nat.add_eq_right, List.length_eq_zero_iff] at hone
  rw [hone, List.flatten_nil, List.append_nil] at hflat
  rw [heq, hone, hflat]
  rfl

/-- As many pieces as there are parts, if each part has one or more: then each has one. -/
theorem length_flatMap_eq_iff {α β : Type} {f : α → List β} {as : List α} (h : ∀ a ∈ as, f a ≠ []) :
    as.length ≤ (as.flatMap f).length ∧
    ((as.flatMap f).length = as.length ↔ ∀ a ∈ as, (f a).length = 1) := by
  induction as with
  | nil => simp
  | cons a as ih =>
    obtain ⟨ha, has⟩ := List.forall_mem_cons.mp h
    obtain ⟨hle, hiff⟩ := ih has
    have hpos := List.length_pos_iff.mpr ha
    rw [List.flatMap_cons, List.length_append, List.length_cons, List.forall_mem_cons, ← hiff]
    omega

theorem digitsApart_iff {cs : List Char}
    (hcs : cs.IsChain fun a b => ¬(a.isDigit = true ∧ b.isUpper = true)) :
    LettersApart cs ↔ DigitsApart cs := by
  rw [List.isChain_iff_forall_rel_of_append_cons_cons] at hcs
  rw [LettersApart, DigitsApart, List.isChain_iff_forall_rel_of_append_cons_cons,
    List.isChain_iff_forall_rel_of_append_cons_cons]
  refine forall₂_congr fun a b => forall₂_congr fun before after => ?_
  constructor
  · rintro h heq ⟨ha, hb⟩
    exact h heq ⟨ha, isAlpha_iff.mpr (.inr hb)⟩
  · rintro h heq ⟨ha, hb⟩
    exact (isAlpha_iff.mp hb).elim (fun hb => hcs heq ⟨ha, hb⟩) fun hb => h heq ⟨ha, hb⟩

/-- Only a small letter can stand too near to what is before it. -/
theorem digitsApart_append {x y : List Char} {c : Char} (hc : c.isLower = false) :
    DigitsApart (x ++ c :: y) ↔ DigitsApart x ∧ DigitsApart (c :: y) := by
  rw [DigitsApart, List.isChain_append, ← and_assoc, and_iff_left fun a _ b hb => ?_]
  · rfl
  · obtain rfl := Option.some.inj hb
    simp [hc]

/-- In the words of a name, the letters behind digits are small: a capital would have started a
word. -/
theorem lettersApart_words {cs : List Char} (hcs : PlainName cs) : ∀ {word}, (∀ c ∈ word, Plain c) →
    (word.reverse.IsChain fun a b => ¬(a.isDigit = true ∧ b.isUpper = true)) →
    ((∀ w ∈ wordsFrom word cs, LettersApart w) ↔ DigitsApart (word.reverse ++ cs)) := by
  have hlast : ∀ {word : List Char},
    (word.reverse.IsChain fun a b => ¬(a.isDigit = true ∧ b.isUpper = true)) →
      ((∀ w ∈ wordsFrom word [], LettersApart w) ↔ DigitsApart word.reverse) := by
    rintro (_ | ⟨prev, word⟩) h
    · exact ⟨fun _ => .nil, fun _ => List.forall_mem_nil _⟩
    · exact List.forall_mem_singleton.trans (digitsApart_iff h)
  induction cs with
  | nil =>
    intro word _ h
    rw [List.append_nil]
    exact hlast h
  | cons c cs ih =>
    intro word hword h
    obtain ⟨hc, hcs⟩ := List.forall_mem_cons.mp hcs
    specialize @ih hcs
    rcases hc with hc | rfl
    · have hone : ∀ d ∈ [c], Plain d := List.forall_mem_singleton.mpr hc
      cases word with
      | nil =>
        rw [wordsFrom_first hc.isSeparator, ih hone (.singleton _)]
        rfl
      | cons prev word =>
        have hprev := hword prev List.mem_cons_self
        cases hstart : startsWord prev c cs.head? with
        | true =>
          have hupper : c.isUpper = true := by
            rw [← hc.isUppercase]
            exact (Bool.and_eq_true_iff.mp hstart).1
          have hlower : c.isLower = false :=
            forall_ascii (P := fun c => c.isUpper = true → c.isLower = false)
              (by decide) hc.toNat_lt hupper
          rw [wordsFrom_starts hc.isSeparator hstart, List.forall_mem_cons, digitsApart_iff h,
            ih hone (.singleton _), digitsApart_append hlower]
          rfl
        | false =>
          have hnot : ¬(prev.isDigit = true ∧ c.isUpper = true) := by
            rintro ⟨hdigit, hupper⟩
            simp [startsWord, hc.isUppercase, hdigit, hupper] at hstart
          rw [wordsFrom_continues hc.isSeparator hstart,
            ih (List.forall_mem_cons.mpr ⟨hc, hword⟩) ?_]
          · simp
          · rw [List.reverse_cons, List.isChain_append]
            refine ⟨h, .singleton _, ?_⟩
            simpa using hnot
    · have hbehind : DigitsApart ('_' :: cs) ↔ DigitsApart cs :=
        List.isChain_cons.trans (and_iff_right fun _ _ h => absurd h.1 (by decide))
      rw [wordsFrom_separator (by decide), List.forall_mem_append, hlast h,
        ih (List.forall_mem_nil _) .nil, digitsApart_append (by decide), hbehind]
      rfl

/-! ### Words that a style puts together -/

theorem flatMap_eq_map {α β : Type} {f : α → List β} {g : α → β} {as : List α}
    (h : ∀ a ∈ as, f a = [g a]) :
    as.flatMap f = as.map g := by
  rw [List.flatMap_def, List.map_congr_left h, ← List.flatMap_def]
  exact List.map_eq_flatMap.symm

theorem wordsFrom_put_constant (ws : List (List Char)) :
    wordsFrom [] (Style.constant.put ws)
      = ws.flatMap fun w => wordsFrom [] (w.map Char.toUpper) := by
  rw [Style.put, wordsFrom_intercalate, List.flatMap_map]

theorem wordsFrom_constant (hws : PlainWords ws) :
    ((wordsFrom [] (Style.constant.put ws)).length = ws.length ↔ Style.constant.Keeps ws)
    ∧ (Style.constant.Keeps ws →
      wordsFrom [] (Style.constant.put ws) = ws.map (·.map Char.toUpper)) := by
  have hpieces : ∀ w ∈ ws, wordsFrom [] (w.map Char.toUpper) ≠ [] := by
    intro w hw
    obtain ⟨c, cs, rfl⟩ := List.exists_cons_of_ne_nil (hws w hw).1
    rw [List.map_cons, wordsFrom_first ((hws _ hw).2 c List.mem_cons_self).toUpper.isSeparator]
    exact wordsFrom_ne_nil (List.cons_ne_nil _ _) _
  have hword : ∀ w ∈ ws, _ := fun w hw => wordsFrom_upper_iff (hws w hw).1 (hws w hw).2
  rw [wordsFrom_put_constant, (length_flatMap_eq_iff hpieces).2]
  exact ⟨forall₂_congr fun w hw => (hword w hw).1,
    fun h => flatMap_eq_map fun w hw => (hword w hw).2 (h w hw)⟩

theorem wordsFrom_snake (hws : PlainWords ws) :
    wordsFrom [] (Style.snake.put ws) = ws.map (·.map Char.toLower) := by
  rw [Style.put, wordsFrom_intercalate, List.flatMap_map]
  refine flatMap_eq_map fun w hw => ?_
  obtain ⟨hne, hplain⟩ := hws w hw
  obtain ⟨c, cs, rfl⟩ := List.exists_cons_of_ne_nil hne
  obtain ⟨hc, hcs⟩ := List.forall_mem_cons.mp hplain
  have hrun := wordsFrom_run (forall_toLower hcs) [] (List.cons_ne_nil c.toLower [])
  rw [List.append_nil] at hrun
  rw [List.map_cons, wordsFrom_first hc.toLower.isSeparator, hrun]
  simp [wordsFrom]

theorem wordsFrom_joined (hws : PlainWords ws) {c last : Char} {cs before : List Char}
    (hc : isSeparator c = false)
    (hcs : ∀ d ∈ cs, isSeparator d = false ∧ isUppercase d = false)
    (hlast : (c :: cs).reverse = last :: before) (hplain : Plain last) :
    ((wordsFrom [] (c :: cs ++ ws.flatMap capital)).length = ws.length + 1 ↔ ShowBehind last ws)
    ∧ (ShowBehind last ws → wordsFrom [] (c :: cs ++ ws.flatMap capital) = (c :: cs) ::
      ws.map capital) := by
  have hsplit : wordsFrom [] (c :: cs ++ ws.flatMap capital)
      = wordsFrom (last :: before) (ws.flatMap capital) := by
    rw [List.cons_append, wordsFrom_first hc, wordsFrom_run hcs _ (List.cons_ne_nil _ _), ← hlast,
      List.reverse_cons]
  obtain ⟨hall, hfew⟩ := wordsFrom_capitals hws before hplain
  rw [hsplit, ← List.reverse_reverse (c :: cs), hlast]
  refine ⟨⟨fun h => ?_, fun h => ?_⟩, hall⟩
  · by_contra hnot
    have := hfew hnot
    omega
  · rw [hall h, List.length_cons, List.length_map]

theorem wordsFrom_pascal (hws : PlainWords ws) :
    ((wordsFrom [] (Style.pascal.put ws)).length = ws.length ↔ Style.pascal.Keeps ws)
    ∧ (Style.pascal.Keeps ws → wordsFrom [] (Style.pascal.put ws) = ws.map capital) := by
  cases ws with
  | nil => exact ⟨⟨fun _ => .nil, fun _ => rfl⟩, fun _ => rfl⟩
  | cons w ws =>
    obtain ⟨⟨c, cs, rfl, hc, hcs⟩, hlater⟩ := hws.cons
    obtain ⟨last, before, hlast, hplain, hupper⟩ := isUpper_last_capital hc hcs
    have hkeeps : Style.pascal.Keeps ((c :: cs) :: ws) ↔ ShowBehind last ws := by
      simp only [Style.Keeps, ShowBehind, List.isChain_cons, toldApart, showsBehind, hupper]
    rw [hkeeps]
    exact wordsFrom_joined hlater hc.toUpper.isSeparator (forall_toLower hcs) hlast hplain

theorem wordsFrom_camel {c : Char} {cs : List Char} (hws : PlainWords ((c :: cs) :: ws)) :
    ((wordsFrom [] (Style.camel.put ((c :: cs) :: ws))).length = ((c :: cs) :: ws).length
      ↔ Style.camel.Keeps ((c :: cs) :: ws))
    ∧ (Style.camel.Keeps ((c :: cs) :: ws) → wordsFrom [] (Style.camel.put ((c :: cs) :: ws))
      = (c :: cs).map Char.toLower :: ws.map capital) := by
  obtain ⟨hw, hlater⟩ := List.forall_mem_cons.mp hws
  obtain ⟨hc, hcs⟩ := List.forall_mem_cons.mp hw.2
  obtain ⟨last, before, hlast⟩ := List.exists_cons_of_ne_nil
    (List.reverse_ne_nil_iff.mpr (List.cons_ne_nil c.toLower (cs.map Char.toLower)))
  have hmem : last ∈ (c :: cs).map Char.toLower := by
    rw [List.map_cons, ← List.mem_reverse, hlast]
    exact List.mem_cons_self
  obtain ⟨d, hd, rfl⟩ := List.mem_map.mp hmem
  replace hd : Plain d := hw.2 d hd
  have hkeeps : Style.camel.Keeps ((c :: cs) :: ws) ↔ ShowBehind d.toLower ws := by
    simp only [Style.Keeps, ShowBehind, showsBehind, hd.isUpper_toLower, List.tail_cons,
      Bool.not_false, Bool.true_or, Bool.and_true]
  rw [hkeeps]
  exact wordsFrom_joined hlater hc.toLower.isSeparator (forall_toLower hcs) hlast hd.toLower

/-! ### From style to style -/

theorem map_toLower_toUpper (hw : ∀ c ∈ w, Plain c) :
    (w.map Char.toUpper).map Char.toLower = w.map Char.toLower := by
  rw [List.map_map]
  exact List.map_congr_left fun c hc => (hw c hc).toLower_toUpper

theorem map_toLower_toLower (hw : ∀ c ∈ w, Plain c) :
    (w.map Char.toLower).map Char.toLower = w.map Char.toLower := by
  rw [List.map_map]
  exact List.map_congr_left fun c hc => (hw c hc).toLower_toLower

theorem map_toLower_capital (hw : ∀ c ∈ w, Plain c) :
    (capital w).map Char.toLower = w.map Char.toLower := by
  cases w with
  | nil => rfl
  | cons c w =>
    obtain ⟨hc, hw⟩ := List.forall_mem_cons.mp hw
    rw [capital, List.map_cons, List.map_cons, hc.toLower_toUpper, map_toLower_toLower hw]

/-- Plain words are changed alike by what changes each plain word alike. -/
theorem PlainWords.map_map {f g h : List Char → List Char} (hws : PlainWords ws)
    (heq : ∀ w, (∀ c ∈ w, Plain c) → g (f w) = h w) : (ws.map f).map g = ws.map h := by
  rw [List.map_map]
  exact List.map_congr_left fun w hw => heq w (hws w hw).2

/-- **What a style keeps**: the number of words exactly if they can be told apart, and then the
words as well, up to their case. -/
theorem wordsFrom_put (hws : PlainWords ws) (g : Style) :
    ((wordsFrom [] (g.put ws)).length = ws.length ↔ g.Keeps ws)
    ∧ (g.Keeps ws →
      (wordsFrom [] (g.put ws)).map (·.map Char.toLower) = ws.map (·.map Char.toLower)) := by
  cases g with
  | constant =>
    obtain ⟨hlength, hwords⟩ := wordsFrom_constant hws
    exact ⟨hlength, fun h => by rw [hwords h, hws.map_map fun _ => map_toLower_toUpper]⟩
  | snake =>
    rw [wordsFrom_snake hws, List.length_map]
    exact ⟨iff_of_true rfl trivial, fun _ => hws.map_map fun _ => map_toLower_toLower⟩
  | pascal =>
    obtain ⟨hlength, hwords⟩ := wordsFrom_pascal hws
    exact ⟨hlength, fun h => by rw [hwords h, hws.map_map fun _ => map_toLower_capital]⟩
  | camel =>
    cases ws with
    | nil => exact ⟨iff_of_true rfl ⟨by simp, .nil⟩, fun _ => rfl⟩
    | cons w ws =>
      obtain ⟨⟨c, cs, rfl, hc, hcs⟩, hlater⟩ := hws.cons
      obtain ⟨hlength, hwords⟩ := wordsFrom_camel hws
      refine ⟨hlength, fun h => ?_⟩
      rw [hwords h, List.map_cons, hlater.map_map fun _ => map_toLower_capital,
        map_toLower_toLower (List.forall_mem_cons.mpr ⟨hc, hcs⟩), ← List.map_cons]

theorem put_map_toLower (hws : PlainWords ws) (g : Style) :
    g.put (ws.map (·.map Char.toLower)) = g.put ws := by
  have hcapital : ∀ {ws}, PlainWords ws →
      (ws.map (·.map Char.toLower)).flatMap capital = ws.flatMap capital := by
    intro ws hws
    rw [List.flatMap_def, List.flatMap_def, hws.map_map fun w hw => ?_]
    cases w with
    | nil => rfl
    | cons c cs =>
      obtain ⟨hc, hcs⟩ := List.forall_mem_cons.mp hw
      rw [List.map_cons, capital, capital, hc.toUpper_toLower, map_toLower_toLower hcs]
  cases g with
  | constant =>
    rw [Style.put, Style.put, hws.map_map fun w hw => ?_]
    rw [List.map_map]
    exact List.map_congr_left fun c hc => (hw c hc).toUpper_toLower
  | snake => rw [Style.put, Style.put, hws.map_map fun _ => map_toLower_toLower]
  | pascal => exact hcapital hws
  | camel =>
    cases ws with
    | nil => rfl
    | cons w ws =>
      obtain ⟨⟨c, cs, rfl, hc, hcs⟩, hlater⟩ := hws.cons
      rw [List.map_cons, Style.put, Style.put, hcapital hlater,
        map_toLower_toLower (List.forall_mem_cons.mpr ⟨hc, hcs⟩)]

theorem PlainName.words {cs : List Char} (h : PlainName cs) : PlainWords (wordsFrom [] cs) := by
  refine forall_wordsFrom cs (fun c hc hsep => (h c hc).resolve_right ?_) [] (List.forall_mem_nil _)
  rintro rfl
  exact absurd hsep (by decide)

theorem plainName_intercalate (hws : ∀ w ∈ ws, ∀ c ∈ w, Plain c) :
    PlainName (['_'].intercalate ws) := by
  induction ws with
  | nil => exact List.forall_mem_nil _
  | cons w ws ih =>
    obtain ⟨hw, hws⟩ := List.forall_mem_cons.mp hws
    cases ws with
    | nil => simpa [PlainName, List.intercalate] using fun c hc => Or.inl (hw c hc)
    | cons w' ws =>
      rw [List.intercalate_cons_cons, List.append_assoc]
      refine List.forall_mem_append.mpr ⟨fun c hc => .inl (hw c hc), ?_⟩
      exact List.forall_mem_cons.mpr ⟨.inr rfl, ih hws⟩

theorem plainName_put (hws : PlainWords ws) (g : Style) : PlainName (g.put ws) := by
  have hcapitals : ∀ {ws}, PlainWords ws → ∀ c ∈ ws.flatMap capital, Plain c := by
    intro ws hws c hc
    obtain ⟨w, hw, hc⟩ := List.mem_flatMap.mp hc
    obtain ⟨d, ds, rfl⟩ := List.exists_cons_of_ne_nil (hws w hw).1
    obtain ⟨hd, hds⟩ := List.forall_mem_cons.mp (hws _ hw).2
    exact List.forall_mem_cons.mpr ⟨hd.toUpper,
      List.forall_mem_map.mpr fun e he => (hds e he).toLower⟩ c hc
  have hlower : ∀ {w : List Char}, (∀ c ∈ w, Plain c) →
      ∀ c ∈ w.map Char.toLower, Plain c := fun hw =>
    List.forall_mem_map.mpr fun c hc => (hw c hc).toLower
  cases g with
  | constant =>
    refine plainName_intercalate (List.forall_mem_map.mpr fun w hw => ?_)
    exact List.forall_mem_map.mpr fun c hc => ((hws w hw).2 c hc).toUpper
  | snake => exact plainName_intercalate (List.forall_mem_map.mpr fun w hw => hlower (hws w hw).2)
  | pascal => exact fun c hc => .inl (hcapitals hws c hc)
  | camel =>
    cases ws with
    | nil => exact List.forall_mem_nil _
    | cons w ws =>
      obtain ⟨hw, hws⟩ := List.forall_mem_cons.mp hws
      exact List.forall_mem_append.mpr ⟨fun c hc => .inl (hlower hw.2 c hc),
        fun c hc => .inl (hcapitals hws c hc)⟩

/-! ### What capitals show -/

/-- Words in Pascal case have a capital for each word that starts in a letter. -/
theorem countP_capitals (hws : PlainWords ws) :
    (ws.flatMap capital).countP Char.isUpper = ws.countP startsInLetter := by
  induction ws with
  | nil => rfl
  | cons w ws ih =>
    obtain ⟨⟨c, cs, rfl, hc, hcs⟩, hlater⟩ := hws.cons
    have hsmall : (cs.map Char.toLower).countP Char.isUpper = 0 :=
      List.countP_eq_zero.mpr (List.forall_mem_map.mpr fun d hd => by
        simp [(hcs d hd).isUpper_toLower])
    rw [List.flatMap_cons, List.countP_append, capital, List.countP_cons, hsmall, ih hlater,
      List.countP_cons, hc.isUpper_toUpper, Nat.zero_add, Nat.add_comm]
    rfl

/-- Each word that writing in capitals adds starts in a letter. -/
theorem countP_wordsFrom_constant (hws : PlainWords ws) :
    (wordsFrom [] (Style.constant.put ws)).countP startsInLetter + ws.length
      = ws.countP startsInLetter + (wordsFrom [] (Style.constant.put ws)).length := by
  rw [wordsFrom_put_constant]
  induction ws with
  | nil => rfl
  | cons w ws ih =>
    obtain ⟨⟨c, cs, rfl, hc, hcs⟩, hlater⟩ := hws.cons
    have hplain : ∀ d ∈ cs.map Char.toUpper, Plain d :=
      List.forall_mem_map.mpr fun d hd => (hcs d hd).toUpper
    obtain ⟨more, later, heq, hflat, hcapital⟩ :=
      wordsFrom_letters (fun d hd => (hplain d hd).isSeparator) (List.cons_ne_nil c.toUpper [])
    have hall : later.countP startsInLetter = later.length := by
      refine List.countP_eq_length.mpr fun v hv => ?_
      obtain ⟨d, hd, hupper⟩ := (Option.any_eq_true _ _).mp (hcapital v hv)
      have hmem : d ∈ cs.map Char.toUpper := by
        rw [← hflat]
        exact List.mem_append_right _ (List.mem_flatten.mpr ⟨v, hv, List.mem_of_mem_head? hd⟩)
      rw [(hplain d hmem).isUppercase] at hupper
      simp [startsInLetter, hd, isAlpha_iff, hupper]
    have hfirst : startsInLetter (c.toUpper :: more) = startsInLetter (c :: cs) :=
      forall_ascii (P := fun c => c.toUpper.isAlpha = c.isAlpha) (by decide) hc.toNat_lt
    specialize ih hlater
    rw [List.flatMap_cons, List.map_cons, wordsFrom_first hc.toUpper.isSeparator, heq,
      List.countP_append, List.length_append, List.reverse_singleton, List.singleton_append,
      List.countP_cons, List.countP_cons, hall, hfirst, List.length_cons, List.length_cons]
    omega

theorem intercalate_injective {as bs : List (List Char)} (has : PlainWords as) (hbs : PlainWords bs)
    (h : ['_'].intercalate as = ['_'].intercalate bs) : as = bs := by
  have hnil : ∀ {as}, PlainWords as → ['_'].intercalate as = [] → as = [] := by
    rintro (_ | ⟨w, _ | ⟨w', as⟩⟩) has hempty
    · rfl
    · exact absurd (by simpa [List.intercalate] using hempty) (has w List.mem_cons_self).1
    · rw [List.intercalate_cons_cons] at hempty
      simp at hempty
  have hfree : ∀ {as}, PlainWords as → ∀ w ∈ as, '_' ∉ w := fun has w hw hmem =>
    ((has w hw).2 _ hmem).ne_underscore rfl
  by_cases ha : as = []
  · rw [ha] at h
    rw [ha, hnil hbs h.symm]
  · have hb : bs ≠ [] := fun hb => ha (hnil has (h.trans (by rw [hb]; rfl)))
    rw [← List.splitOn_intercalate '_' (hfree has) ha, h,
      List.splitOn_intercalate '_' (hfree hbs) hb]

theorem toList_words (s : String) : (words s).map String.toList = wordsFrom [] s.toList := by
  simp [words, List.map_map, Function.comp_def]

theorem length_words (s : String) : (words s).length = (wordsFrom [] s.toList).length := by
  rw [words, List.length_map]

section Names

variable {s : String} (hs : PlainName s.toList)

include hs

theorem wordsFrom_write (g : Style) :
    wordsFrom [] (g.write s).toList = wordsFrom [] (g.put (wordsFrom [] s.toList)) := by
  rw [toList_write g hs.words]

theorem plainName_write (g : Style) : PlainName (g.write s).toList := by
  rw [toList_write g hs.words]
  exact plainName_put hs.words g

theorem length_words_write (g : Style) :
    (words (g.write s)).length = (words s).length ↔ g.Keeps (wordsFrom [] s.toList) := by
  rw [length_words, length_words, wordsFrom_write hs]
  exact (wordsFrom_put hs.words g).1

theorem words_write (g : Style) :
    (words (g.write s)).map lower = (words s).map lower ↔ g.Keeps (wordsFrom [] s.toList) := by
  constructor
  · intro h
    rw [← length_words_write hs, ← List.length_map lower, h, List.length_map]
  · intro h
    refine List.map_injective_iff.mpr (fun _ _ => String.toList_injective) ?_
    rw [map_words (plainName_write hs g).words fun _ => lower_ofList,
      map_words hs.words fun _ => lower_ofList, wordsFrom_write hs, (wordsFrom_put hs.words g).2 h]

theorem keeps_constant : Style.constant.Keeps (wordsFrom [] s.toList) ↔ DigitsApart s.toList :=
  lettersApart_words hs (List.forall_mem_nil _) .nil

theorem words_constantCase : words (constantCase s) = (words s).map upper ↔
    DigitsApart s.toList := by
  rw [← keeps_constant hs]
  constructor
  · intro h
    refine (length_words_write hs .constant).mp ?_
    rw [Style.write, h, List.length_map]
  · intro h
    refine List.map_injective_iff.mpr (fun _ _ => String.toList_injective) ?_
    rw [map_words hs.words fun _ => upper_ofList, toList_words]
    exact (wordsFrom_write hs .constant).trans ((wordsFrom_constant hs.words).2 h)

/-- **From a style that keeps the words every style can be written.** -/
theorem write_write {g : Style} (hg : g.Keeps (wordsFrom [] s.toList)) (f : Style) :
    f.write (g.write s) = f.write s := by
  have hwritten := (plainName_write hs g).words
  rw [← String.toList_inj, toList_write f hs.words, toList_write f hwritten,
    ← put_map_toLower hwritten f, wordsFrom_write hs, (wordsFrom_put hs.words g).2 hg,
    put_map_toLower hs.words f]

theorem put_eq_of_write_eq {f g : Style} (h : f.write (g.write s) = f.write s) :
    f.put (wordsFrom [] (g.write s).toList) = f.put (wordsFrom [] s.toList) := by
  rw [← toList_write f (plainName_write hs g).words, ← toList_write f hs.words, h]

theorem constantCase_constantCase : constantCase (constantCase s) = constantCase s ↔
    DigitsApart s.toList := by
  rw [← keeps_constant hs]
  refine ⟨fun h => ?_, fun h => write_write hs (g := .constant) h .constant⟩
  have hput := put_eq_of_write_eq hs (f := .constant) (g := .constant) h
  have hupper : ∀ {ws}, PlainWords ws → PlainWords (ws.map (·.map Char.toUpper)) := fun hws =>
    List.forall_mem_map.mpr fun w hw =>
      ⟨fun hnil => (hws w hw).1 (List.map_eq_nil_iff.mp hnil),
        List.forall_mem_map.mpr fun c hc => ((hws w hw).2 c hc).toUpper⟩
  have hwords :=
    intercalate_injective (hupper (plainName_write hs .constant).words) (hupper hs.words) hput
  rw [← length_words_write hs, length_words, length_words]
  simpa using congrArg List.length hwords

theorem pascalCase_constantCase : pascalCase (constantCase s) = pascalCase s ↔
    DigitsApart s.toList := by
  rw [← keeps_constant hs]
  refine ⟨fun h => ?_, fun h => write_write hs (g := .constant) h .pascal⟩
  have hput : (wordsFrom [] (Style.constant.write s).toList).flatMap capital
      = (wordsFrom [] s.toList).flatMap capital :=
    put_eq_of_write_eq hs (f := .pascal) (g := .constant) h
  have hcount := countP_wordsFrom_constant hs.words
  rw [← wordsFrom_write hs, ← countP_capitals (plainName_write hs .constant).words, hput,
    ← countP_capitals hs.words, Nat.add_left_cancel_iff] at hcount
  rw [← (wordsFrom_put hs.words .constant).1, ← wordsFrom_write hs]
  exact hcount.symm

end Names

/-- **Which styles keep the words of a name.**  Capitals keep them exactly if no small letter stands
directly behind a digit; then, and only then, writing in capitals again changes nothing and Pascal
case can still be written.  Snake case always keeps them.  From a style that does, the name can be
written in any style. -/
theorem styles_exact {s : String} (hs : ∀ c ∈ s.toList, c.isAlphanum = true ∨ c = '_') :
    (words (constantCase s) = (words s).map upper ↔ DigitsApart s.toList)
    ∧ (constantCase (constantCase s) = constantCase s ↔ DigitsApart s.toList)
    ∧ (pascalCase (constantCase s) = pascalCase s ↔ DigitsApart s.toList)
    ∧ ∀ g : Style,
      ((words (g.write s)).map lower = (words s).map lower ↔ g.Keeps ((words s).map String.toList))
      ∧ (g.Keeps ((words s).map String.toList) → ∀ f : Style, f.write (g.write s) = f.write s) := by
  rw [toList_words]
  exact ⟨words_constantCase hs, constantCase_constantCase hs, pascalCase_constantCase hs,
    fun g => ⟨words_write hs g, write_write hs⟩⟩

/-- `Adresse2Ligne` is `ADRESSE2_LIGNE` in capitals, and can be read back.  `Adresse2ligne` is one
word, but `ADRESSE2LIGNE` is two. -/
theorem styles_exact_adresse :
    words (constantCase "Adresse2Ligne") = (words "Adresse2Ligne").map upper
    ∧ words (constantCase "Adresse2ligne") ≠ (words "Adresse2ligne").map upper
    ∧ constantCase (constantCase "Adresse2ligne") ≠ constantCase "Adresse2ligne"
    ∧ pascalCase (constantCase "Adresse2ligne") ≠ pascalCase "Adresse2ligne"
    ∧ ∀ f : Style, f.write (snakeCase "Adresse2ligne") = f.write "Adresse2ligne" := by
  have hapart : DigitsApart "Adresse2Ligne".toList := by
    unfold DigitsApart
    decide
  have hnot : ¬ DigitsApart "Adresse2ligne".toList := by
    unfold DigitsApart
    decide
  have hname : ∀ {s : String}, (s.toList.all fun c => c.isAlphanum || c == '_') = true →
      ∀ c ∈ s.toList, c.isAlphanum = true ∨ c = '_' := fun h => by simpa using h
  obtain ⟨hwords, hagain, hpascal, hstyles⟩ :=
    styles_exact (s := "Adresse2ligne") (hname (by decide))
  exact ⟨(styles_exact (s := "Adresse2Ligne") (hname (by decide))).1.mpr hapart, mt hwords.mp hnot,
    mt hagain.mp hnot, mt hpascal.mp hnot, (hstyles .snake).2 trivial⟩

end EntityModel.Text
