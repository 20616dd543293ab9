import EntityModel.Proofs.Text.Words

/-!
# Where the words of a text lie

Every word is a stretch of the text.  Together the stretches hold all characters that are not
removed and no other (`WordsLie`), a stretch ends where a character is removed or a word starts by
its case (`CaseBoundary`), and nowhere else.  That settles the stretches (`WordsLie.unique`), and
the words are those (`words_exact`).
-/

namespace EntityModel.Text

/-! ### Characters that are removed, and places where a word starts -/

/-- The character is in no word: it is `_`, or no identifier goes on with it. -/
def Removed (c : Char) : Prop := c = '_' ∨ continuesIdentifier c = false

instance : DecidablePred Removed := fun c =>
  inferInstanceAs (Decidable (c = '_' ∨ continuesIdentifier c = false))

theorem isSeparator_iff {c : Char} : isSeparator c = true ↔ Removed c := by
  simp [isSeparator, Removed]

theorem not_removed_iff {c : Char} : ¬Removed c ↔ isSeparator c = false := by
  rw [← isSeparator_iff, Bool.not_eq_true]

/-- At `k` a capital follows a small letter or a digit, or it stands between a capital and a small
letter. -/
def CaseBoundary (cs : List Char) (k : Nat) : Prop :=
  ∃ prev c, 0 < k ∧ cs[k - 1]? = some prev ∧ cs[k]? = some c ∧ isUppercase c = true ∧
    (isLowercase prev = true ∨ prev.isDigit = true ∨
      isUppercase prev = true ∧ ∃ next, cs[k + 1]? = some next ∧ isLowercase next = true)

theorem caseBoundary_iff {cs : List Char} {k : Nat} {prev c : Char} (hprev : cs[k]? = some prev)
    (hc : cs[k + 1]? = some c) : CaseBoundary cs (k + 1) ↔ startsWord prev c cs[k + 2]? = true := by
  simp [CaseBoundary, startsWord, hprev, hc, Option.any_eq_true, or_assoc]

/-! ### Stretches -/

/-- The part of a text from the character at `start` to the one before `stop`. -/
@[ext]
structure Stretch where
  start : Nat
  stop : Nat
deriving DecidableEq

namespace Stretch

def Holds (p : Stretch) (k : Nat) : Prop := p.start ≤ k ∧ k < p.stop

def chars (p : Stretch) (cs : List Char) : List Char := (cs.take p.stop).drop p.start

/-- Between the two a character is removed, or the second one starts by its case where the first one
stops. -/
def Apart (cs : List Char) (p q : Stretch) : Prop :=
  (∃ k c, p.stop ≤ k ∧ k < q.start ∧ cs[k]? = some c ∧ Removed c) ∨ p.stop = q.start ∧
    CaseBoundary cs q.start

theorem Apart.stop_le {cs : List Char} {p q : Stretch} (h : p.Apart cs q) : p.stop ≤ q.start := by
  rcases h with ⟨k, c, hp, hq, -, -⟩ | ⟨h, -⟩
  · exact hp.trans hq.le
  · exact h.le

end Stretch

/-- The words of a text from `lo` on lie at these places. -/
structure WordsLie (cs : List Char) (lo : Nat) (places : List Stretch) : Prop where
  inside : ∀ p ∈ places, lo ≤ p.start ∧ p.start < p.stop ∧ p.stop ≤ cs.length
  /-- A character is in a word unless it is removed. -/
  kept : ∀ k c, lo ≤ k → cs[k]? = some c → ((∃ p ∈ places, p.Holds k) ↔ ¬Removed c)
  apart : places.IsChain (Stretch.Apart cs)
  /-- Wherever a word starts by its case, no other one goes on. -/
  whole : ∀ p ∈ places, ∀ k, p.start < k → k < p.stop → ¬CaseBoundary cs k

variable {cs front word rest : List Char} {c : Char} {lo mid : Nat} {p : Stretch}
  {places : List Stretch}

namespace WordsLie

theorem nil (h : cs.length ≤ lo) : WordsLie cs lo [] where
  inside := List.forall_mem_nil _
  kept k c hk hc := absurd (List.getElem?_eq_some_iff.mp hc).1 (by omega)
  apart := .nil
  whole := List.forall_mem_nil _

theorem skip (h : WordsLie cs (lo + 1) places) (hc : cs[lo]? = some c) (hremoved : Removed c) :
    WordsLie cs lo places where
  inside p hp := by
    have := h.inside p hp
    omega
  kept k d hk hd := by
    rcases hk.eq_or_lt with rfl | hk
    · obtain rfl := Option.some.inj (hc.symm.trans hd)
      refine iff_of_false ?_ (not_not_intro hremoved)
      rintro ⟨p, hp, hstart, -⟩
      have := h.inside p hp
      omega
    · exact h.kept k d hk hd
  apart := h.apart
  whole := h.whole

/-- One more word in front, where nothing between it and the others is kept. -/
theorem cons (h : WordsLie cs mid places) (hlt : p.start < p.stop) (hmid : p.stop ≤ mid)
    (hstop : p.stop ≤ cs.length) (hword : ∀ k c, p.Holds k → cs[k]? = some c → ¬Removed c)
    (hgap : ∀ k c, p.stop ≤ k → k < mid → cs[k]? = some c → Removed c)
    (hwhole : ∀ k, p.start < k → k < p.stop → ¬CaseBoundary cs k)
    (hnext : ∀ q ∈ places.head?, p.Apart cs q) : WordsLie cs p.start (p :: places) where
  inside := List.forall_mem_cons.mpr ⟨⟨le_rfl, hlt, hstop⟩, fun q hq => by
    have := h.inside q hq
    omega⟩
  kept k c hk hc := by
    rw [List.exists_mem_cons_iff]
    by_cases hp : p.Holds k
    · exact iff_of_true (.inl hp) (hword k c hp hc)
    · have hk' : p.stop ≤ k := not_lt.mp fun hlt => hp ⟨hk, hlt⟩
      rw [or_iff_right hp]
      by_cases hkmid : k < mid
      · refine iff_of_false ?_ (not_not_intro (hgap k c hk' hkmid hc))
        rintro ⟨q, hq, hstart, -⟩
        have := h.inside q hq
        omega
      · exact h.kept k c (not_lt.mp hkmid) hc
  apart := List.isChain_cons.mpr ⟨hnext, h.apart⟩
  whole := List.forall_mem_cons.mpr ⟨hwhole, h.whole⟩

/-! ### One way to lie -/

theorem stop_le (h : WordsLie cs lo (p :: places)) : ∀ q ∈ places, p.stop ≤ q.start := by
  obtain ⟨hinside, -, hapart, -⟩ := h
  induction places generalizing p with
  | nil => exact List.forall_mem_nil _
  | cons q places ih =>
    obtain ⟨hpq, hapart⟩ := List.isChain_cons_cons.mp hapart
    have hq := hinside q (List.mem_cons_of_mem _ List.mem_cons_self)
    have hlater := ih (fun r hr => hinside r (List.mem_cons_of_mem _ hr)) hapart
    refine List.forall_mem_cons.mpr ⟨hpq.stop_le, fun r hr => ?_⟩
    exact hpq.stop_le.trans (hq.2.1.le.trans (hlater r hr))

theorem tail (h : WordsLie cs lo (p :: places)) : WordsLie cs p.stop places where
  inside q hq := ⟨h.stop_le q hq, (h.inside q (List.mem_cons_of_mem _ hq)).2⟩
  kept k c hk hc := by
    have hp := h.inside p List.mem_cons_self
    rw [← h.kept k c (by omega) hc, List.exists_mem_cons_iff, or_iff_right]
    exact fun hholds => absurd hholds.2 (not_lt.mpr hk)
  apart := h.apart.of_cons
  whole q hq := h.whole q (List.mem_cons_of_mem _ hq)

theorem exists_start (h : WordsLie cs lo (p :: places)) :
    ∃ c, cs[p.start]? = some c ∧ ¬Removed c := by
  obtain ⟨hlo, hlt, hlength⟩ := h.inside p List.mem_cons_self
  have hc := List.getElem?_eq_getElem (show p.start < cs.length by omega)
  exact ⟨_, hc, (h.kept _ _ hlo hc).mp ⟨p, List.mem_cons_self, le_rfl, hlt⟩⟩

theorem removed_of_lt_start (h : WordsLie cs lo (p :: places)) {k : Nat} (hlo : lo ≤ k)
    (hk : k < p.start) (hc : cs[k]? = some c) : Removed c := by
  by_contra hkept
  obtain ⟨q, hq, hstart, -⟩ := (h.kept k c hlo hc).mpr hkept
  have hp := (h.inside p List.mem_cons_self).2.1
  rcases List.mem_cons.mp hq with rfl | hq
  · omega
  · have := h.stop_le q hq
    omega

/-- A word stops where a character is removed or the next word starts by its case. -/
theorem removed_or_boundary (h : WordsLie cs lo (p :: places)) (hc : cs[p.stop]? = some c) :
    Removed c ∨ CaseBoundary cs p.stop := by
  by_cases hremoved : Removed c
  · exact .inl hremoved
  obtain ⟨q, hq, hstart, -⟩ := (h.tail.kept _ c le_rfl hc).mpr hremoved
  cases places with
  | nil => exact absurd hq List.not_mem_nil
  | cons first places =>
    -- `q` starts at the stop of `p`, so that it is the first word behind
    have hfirst : first.start = p.stop := by
      have hp := h.stop_le first List.mem_cons_self
      rcases List.mem_cons.mp hq with rfl | hq
      · omega
      · have := h.tail.stop_le q hq
        have := (h.tail.inside first List.mem_cons_self).2.1
        omega
    rcases (List.isChain_cons_cons.mp h.apart).1 with ⟨k, -, hk, hk', -, -⟩ | ⟨-, hboundary⟩
    · omega
    · exact .inr (hfirst ▸ hboundary)

theorem start_le {q : Stretch} {places' : List Stretch} (h : WordsLie cs lo (p :: places))
    (h' : WordsLie cs lo (q :: places')) : p.start ≤ q.start := by
  by_contra hlt
  obtain ⟨c, hc, hkept⟩ := h'.exists_start
  exact hkept (h.removed_of_lt_start (h'.inside q List.mem_cons_self).1 (not_le.mp hlt) hc)

theorem stop_le_stop {q : Stretch} {places' : List Stretch} (h : WordsLie cs lo (p :: places))
    (h' : WordsLie cs lo (q :: places')) (hstart : p.start = q.start) : p.stop ≤ q.stop := by
  by_contra hlt
  obtain ⟨hlo, -, hlength⟩ := h.inside p List.mem_cons_self
  have hq := (h'.inside q List.mem_cons_self).2.1
  have hc := List.getElem?_eq_getElem (show q.stop < cs.length by omega)
  rcases h'.removed_or_boundary hc with hremoved | hboundary
  · exact (h.kept q.stop _ (by omega) hc).mp ⟨p, List.mem_cons_self, by omega, by omega⟩ hremoved
  · exact h.whole p List.mem_cons_self q.stop (by omega) (by omega) hboundary

theorem not_nil (h : WordsLie cs lo (p :: places)) : ¬WordsLie cs lo [] := by
  intro hnil
  obtain ⟨c, hc, hkept⟩ := h.exists_start
  obtain ⟨q, hq, -⟩ := (hnil.kept _ c (h.inside p List.mem_cons_self).1 hc).mpr hkept
  exact List.not_mem_nil hq

/-- **The words of a text lie at no other places.** -/
theorem unique {places' : List Stretch} (h : WordsLie cs lo places) (h' : WordsLie cs lo places') :
    places = places' := by
  induction places generalizing lo places' with
  | nil =>
    cases places' with
    | nil => rfl
    | cons q places' => exact absurd h h'.not_nil
  | cons p places ih =>
    cases places' with
    | nil => exact absurd h' h.not_nil
    | cons q places' =>
      have hstart := le_antisymm (h.start_le h') (h'.start_le h)
      have hstop := le_antisymm (h.stop_le_stop h' hstart) (h'.stop_le_stop h hstart.symm)
      obtain rfl : p = q := Stretch.ext hstart hstop
      rw [ih h.tail h'.tail]

end WordsLie

/-! ### Words that are begun -/

/-- Behind `front` the word is begun whose letters so far are `word`, last letter first. -/
structure Begun (cs front word rest : List Char) : Prop where
  text : cs = front ++ (word.reverse ++ rest)
  kept : ∀ c ∈ word, ¬Removed c
  whole : ∀ k, front.length < k → k < front.length + word.length → ¬CaseBoundary cs k

namespace Begun

theorem none (h : cs = front ++ rest) : Begun cs front [] rest where
  text := h
  kept := List.forall_mem_nil _
  whole _ hk hk' := absurd hk' (not_lt.mpr hk.le)

theorem one (h : cs = front ++ c :: rest) (hc : ¬Removed c) : Begun cs front [c] rest where
  text := h
  kept := List.forall_mem_singleton.mpr hc
  whole _ hk hk' := absurd hk' (not_lt.mpr hk)

theorem getElem?_behind (h : Begun cs front word rest) (k : Nat) :
    cs[front.length + word.length + k]? = rest[k]? := by
  rw [h.text, Nat.add_assoc, List.getElem?_append_right (Nat.le_add_right _ _),
    Nat.add_sub_cancel_left, List.getElem?_append_right (by simp)]
  simp

theorem length_eq (h : Begun cs front word rest) :
    cs.length = front.length + word.length + rest.length := by
  simp [h.text, Nat.add_assoc]

theorem caseBoundary_iff {prev : Char} (h : Begun cs front (prev :: word) (c :: rest)) :
    CaseBoundary cs (front.length + (prev :: word).length) ↔
    startsWord prev c rest.head? = true := by
  have hprev : cs[front.length + word.length]? = some prev := by simp [h.text]
  rw [List.head?_eq_getElem?, ← List.getElem?_cons_succ (a := c), ← h.getElem?_behind]
  exact Text.caseBoundary_iff hprev (h.getElem?_behind 0)

theorem goOn (h : Begun cs front word (c :: rest)) (hc : ¬Removed c)
    (hno : ¬CaseBoundary cs (front.length + word.length)) : Begun cs front (c :: word) rest where
  text := by simp [h.text]
  kept := List.forall_mem_cons.mpr ⟨hc, h.kept⟩
  whole k hk hk' := by
    rcases (Nat.lt_succ_iff.mp hk').eq_or_lt with rfl | hlt
    · exact hno
    · exact h.whole k hk hlt

theorem close (h : Begun cs front word rest) (hword : word ≠ [])
    (hmid : front.length + word.length ≤ mid) (hlie : WordsLie cs mid places)
    (hgap : ∀ k c, front.length + word.length ≤ k → k < mid → cs[k]? = some c → Removed c)
    (hnext : ∀ q ∈ places.head?, Stretch.Apart cs ⟨front.length, front.length + word.length⟩ q) :
    WordsLie cs front.length (⟨front.length, front.length + word.length⟩ :: places) := by
  refine hlie.cons ?_ hmid ?_ ?_ hgap h.whole hnext
  · exact Nat.lt_add_of_pos_right (List.length_pos_iff.mpr hword)
  · exact h.length_eq ▸ Nat.le_add_right _ _
  · rintro k c ⟨hlo, hk⟩ hc
    have hlo : front.length ≤ k := hlo
    have hk : k < front.length + word.length := hk
    rw [h.text, List.getElem?_append_right hlo, List.getElem?_append_left (by simp; omega)] at hc
    exact h.kept c (List.mem_reverse.mp (List.mem_of_getElem? hc))

theorem chars_eq (h : Begun cs front word rest) :
    Stretch.chars ⟨front.length, front.length + word.length⟩ cs = word.reverse := by
  simp [Stretch.chars, h.text, List.take_append]

end Begun

/-! ### The words found -/

/-- The words found after `front` lie behind it, and one that is begun lies right there. -/
theorem exists_places : ∀ (rest front word : List Char), Begun cs front word rest →
    ∃ places, WordsLie cs front.length places ∧
      (word ≠ [] → ∃ q ∈ places.head?, q.start = front.length) ∧
      wordsFrom word rest = places.map (·.chars cs) := by
  intro rest
  induction rest with
  | nil =>
    intro front word h
    by_cases hword : word = []
    · subst hword
      exact ⟨[], .nil h.length_eq.le, fun hne => absurd rfl hne, rfl⟩
    · refine ⟨_, h.close hword le_rfl
        (.nil h.length_eq.le) (fun k c hk hk' => absurd hk' (not_lt.mpr hk)) (by simp), fun _ =>
          ⟨_, rfl, rfl⟩, ?_⟩
      simp [wordsFrom, hword, h.chars_eq]
  | cons c rest ih =>
    intro front word h
    have hc : cs[front.length + word.length]? = some c := h.getElem?_behind 0
    have hbehind : cs = (front ++ word.reverse) ++ c :: rest := by rw [h.text, List.append_assoc]
    by_cases hremoved : Removed c
    · -- the word ends before `c`, and none is begun behind it
      obtain ⟨places, hlie, -, hwords⟩ := ih (front ++ word.reverse ++ [c]) []
        (.none (by simp [h.text]))
      rw [List.length_append, List.length_append, List.length_reverse,
        List.length_singleton] at hlie
      rw [wordsFrom_separator (isSeparator_iff.mpr hremoved), hwords]
      by_cases hword : word = []
      · subst hword
        exact ⟨places, hlie.skip hc hremoved, fun hne => absurd rfl hne, rfl⟩
      · refine ⟨_, h.close hword (Nat.le_succ _) hlie ?_ ?_, fun _ => ⟨_, rfl, rfl⟩, ?_⟩
        · intro k d hk hk' hd
          obtain rfl : k = front.length + word.length := by omega
          exact Option.some.inj (hc.symm.trans hd) ▸ hremoved
        · intro q hq
          exact .inl ⟨_, c, le_rfl, (hlie.inside q (List.mem_of_mem_head? hq)).1, hc, hremoved⟩
        · simp [wordsFrom, hword, h.chars_eq]
    · have hsep := not_removed_iff.mp hremoved
      cases word with
      | nil =>
        rw [wordsFrom_first hsep]
        obtain ⟨places, hlie, -, hwords⟩ := ih front [c] (.one h.text hremoved)
        exact ⟨places, hlie, fun hne => absurd rfl hne, hwords⟩
      | cons prev word =>
        cases hstart : startsWord prev c rest.head? with
        | true =>
          obtain ⟨places, hlie, hfirst, hwords⟩ := ih _ [c] (.one hbehind hremoved)
          obtain ⟨q, hq, hstop⟩ := hfirst (List.cons_ne_nil _ _)
          rw [List.length_append, List.length_reverse] at hlie hstop
          rw [wordsFrom_starts hsep hstart, hwords]
          refine ⟨_, h.close (List.cons_ne_nil _ _) le_rfl hlie
            (fun k d hk hk' => absurd hk' (not_lt.mpr hk)) ?_, fun _ => ⟨_, rfl, rfl⟩, ?_⟩
          · intro q' hq'
            obtain rfl := Option.some.inj (hq.symm.trans hq')
            exact .inr ⟨hstop.symm, hstop ▸ h.caseBoundary_iff.mpr hstart⟩
          · rw [List.map_cons, h.chars_eq]
        | false =>
          have hno := mt h.caseBoundary_iff.mp (by simp [hstart])
          obtain ⟨places, hlie, hfirst, hwords⟩ := ih front _ (h.goOn hremoved hno)
          exact ⟨places, hlie, fun _ => hfirst (List.cons_ne_nil _ _),
            (wordsFrom_continues hsep hstart).trans hwords⟩

theorem flatten_wordsFrom (cs : List Char) : ∀ word,
    (wordsFrom word cs).flatten = word.reverse ++ cs.filter (¬Removed ·) := by
  induction cs with
  | nil => intro word; by_cases hword : word = [] <;> simp [wordsFrom, hword]
  | cons c cs ih =>
    intro word
    by_cases hremoved : Removed c
    · rw [wordsFrom_separator (isSeparator_iff.mpr hremoved), List.flatten_append, ih]
      by_cases hword : word = [] <;> simp [wordsFrom, hword, hremoved]
    · have hsep := not_removed_iff.mp hremoved
      cases word with
      | nil => rw [wordsFrom_first hsep, ih]; simp [hremoved]
      | cons prev word =>
        cases hstart : startsWord prev c cs.head? with
        | true => rw [wordsFrom_starts hsep hstart, List.flatten_cons, ih]; simp [hremoved]
        | false => rw [wordsFrom_continues hsep hstart, ih]; simp [hremoved]

/-- **The words of a text lose and invent nothing.**  None is empty or holds a removed character,
and one behind the other they are the text without the removed characters.  They lie in the text,
next to each other only where a word starts by its case, and each such place is between two of them;
no other places are so. -/
theorem words_exact (s : String) :
    (∀ w ∈ words s, w ≠ "" ∧ ∀ c ∈ w.toList, ¬Removed c) ∧
      String.join (words s) = String.ofList (s.toList.filter (¬Removed ·)) ∧
      ∃ places, (∀ others, WordsLie s.toList 0 others ↔ others = places) ∧
        words s = places.map fun p => String.ofList (p.chars s.toList) := by
  refine ⟨fun w hw => ?_, ?_, ?_⟩
  · obtain ⟨chars, hchars, rfl⟩ := List.mem_map.mp hw
    have hword := forall_wordsFrom s.toList (fun c _ => not_removed_iff.mpr) []
      (List.forall_mem_nil _) chars hchars
    rw [String.toList_ofList]
    exact ⟨fun hnil => hword.1 (by simpa using congrArg String.toList hnil), hword.2⟩
  · rw [← String.toList_inj, String.toList_join, words, List.flatMap_map, String.toList_ofList]
    simpa [List.flatMap_id'] using flatten_wordsFrom s.toList []
  · obtain ⟨places, hlie, -, hwords⟩ := exists_places s.toList [] [] (.none rfl)
    refine ⟨places, fun others => ⟨fun h => h.unique hlie, fun h => h ▸ hlie⟩, ?_⟩
    rw [words, hwords, List.map_map]
    rfl

example : words "HTTPServer__Id2Bis" = ["HTTP", "Server", "Id2", "Bis"] := by decide

end EntityModel.Text
