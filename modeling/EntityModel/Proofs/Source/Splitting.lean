import EntityModel.Source.Document
import EntityModel.Proofs.Source.NodePlaces
import EntityModel.Proofs.Yaml.Events

/-!
# Documents are whole lines of their file

The lexer counts a CR alone as the end of a line, the lines of a file do not.  In a file whose lines
hold no CR both agree: each document has the lines from its start to its end, and the places of its
nodes are places in the file (`Document.split_wholeLines`).
-/

namespace EntityModel.Source.Document

open Yaml

/-- The line behind the last one of a document: an end at the start of a line leaves that line
out. -/
def behind (stop : Mark) : Nat := if stop.column = 0 then stop.line else stop.line + 1

/-- The whole lines of a document, from that of its start on. -/
def wholeLines (lines : List (List Char)) (b : Mark × Mark) : Document :=
  ⟨b.1.line, (lines.drop b.1.line).take (behind b.2 - b.1.line)⟩

variable {P : Mark → Prop}

/-- Documents start and end at marks of events. -/
theorem mem_bounds {events : List (Yaml.Event × Mark)} (hevents : ∀ e ∈ events, P e.2) :
    ∀ {start : Option Mark}, (∀ m ∈ start, P m) → ∀ b ∈ bounds start events, P b.1 ∧ P b.2 := by
  induction events with
  | nil =>
    intro start _ b hb
    rw [bounds] at hb
    exact absurd hb List.not_mem_nil
  | cons e events ih =>
    obtain ⟨he, hlater⟩ := List.forall_mem_cons.mp hevents
    intro start hstart b hb
    unfold bounds at hb
    split at hb
    · exact absurd hb List.not_mem_nil
    next mark rest heq =>
      obtain ⟨rfl, rfl⟩ := List.cons.inj heq
      exact ih hlater (fun m hm => Option.mem_some.mp hm ▸ he) b hb
    next first mark rest heq =>
      obtain ⟨rfl, rfl⟩ := List.cons.inj heq
      rcases List.mem_cons.mp hb with rfl | hb
      · exact ⟨hstart first rfl, he⟩
      · have hnone : ∀ m ∈ (none : Option Mark), P m := fun _ hm => nomatch hm
        exact ih hlater hnone b hb
    next heq =>
      obtain ⟨rfl, rfl⟩ := List.cons.inj heq
      exact ih hlater hstart b hb

end EntityModel.Source.Document

namespace EntityModel.Yaml.InLines

variable {lines : List (List Char)} {line column : Nat}

theorem line_le (h : InLines lines line column) : line ≤ lines.length := by
  rcases h with ⟨l, hl, -⟩ | ⟨rfl, -⟩
  · exact Nat.le_of_lt (List.getElem?_eq_some_iff.mp hl).1
  · exact Nat.le_refl _

theorem behind_le {m : Mark} (h : InLines lines m.line m.column) :
    Source.Document.behind m ≤ lines.length := by
  unfold Source.Document.behind
  split
  · exact h.line_le
  next hcolumn =>
    rcases h with ⟨l, hl, -⟩ | ⟨-, hzero⟩
    · exact (List.getElem?_eq_some_iff.mp hl).1
    · exact absurd hzero hcolumn

theorem zero (lines : List (List Char)) : InLines lines 0 0 := by
  cases lines with
  | nil => exact .inr ⟨rfl, rfl⟩
  | cons l lines => exact .inl ⟨l, rfl, Nat.zero_le _⟩

/-- A place in some of the lines is a place in all of them, moved by the lines before. -/
theorem shift {first count : Nat} (hfirst : first ≤ lines.length)
    (h : InLines ((lines.drop first).take count) line column) :
    InLines lines (first + line) column := by
  rcases h with ⟨l, hl, hcolumn⟩ | ⟨rfl, rfl⟩
  · rw [List.getElem?_take] at hl
    split at hl
    · exact .inl ⟨l, by rwa [List.getElem?_drop] at hl, hcolumn⟩
    · exact nomatch hl
  · have hle : first + ((lines.drop first).take count).length ≤ lines.length := by
      rw [List.length_take, List.length_drop]
      omega
    rcases Nat.lt_or_eq_of_le hle with hlt | heq
    · exact .inl ⟨_, List.getElem?_eq_getElem hlt, Nat.zero_le _⟩
    · exact .inr ⟨heq, rfl⟩

end EntityModel.Yaml.InLines

namespace EntityModel.Source.Document

open Yaml

theorem between_eq {lines : List (List Char)} {start stop : Mark}
    (hstart : InLines lines start.line start.column)
    (hstop : InLines lines stop.line stop.column) :
    between lines start stop = .ok (wholeLines lines (start, stop)) := by
  have hbehind := hstop.behind_le
  unfold behind at hbehind
  unfold between wholeLines behind
  have hlast : max (min (if stop.column == 0 then stop.line else stop.line + 1) lines.length)
        start.line - start.line
      = (if stop.column = 0 then stop.line else stop.line + 1) - start.line := by
    simp only [beq_iff_eq]
    omega
  rw [if_neg (Nat.not_lt.mpr hstart.line_le)]
  dsimp only
  rw [hlast]

theorem mapM_between {lines : List (List Char)} {found : List (Mark × Mark)}
    (h : ∀ b ∈ found, InLines lines b.1.line b.1.column ∧ InLines lines b.2.line b.2.column) :
    (found.mapM fun (start, stop) => between lines start stop)
      = .ok (found.map (wholeLines lines)) := by
  induction found with
  | nil => rfl
  | cons b found ih =>
    obtain ⟨hb, h⟩ := List.forall_mem_cons.mp h
    rw [List.mapM_cons]
    dsimp only
    rw [between_eq hb.1 hb.2, ih h]
    rfl

variable {source : List Char}

theorem inLines_bounds (hcr : ∀ line ∈ Text.lines source, '\r' ∉ line) :
    ∀ b ∈ bounds none (OneTwo.events source).events,
    InLines (Text.lines source) b.1.line b.1.column ∧
    InLines (Text.lines source) b.2.line b.2.column :=
  mem_bounds (P := fun m => InLines (Text.lines source) m.line m.column)
    (fun e he => (OneTwo.marked_events source e he).elim fun _ h => h.inLines hcr) fun _ hm =>
      nomatch hm

theorem split_eq (haccepted : (OneTwo.events source).failure = none)
    (hcr : ∀ line ∈ Text.lines source, '\r' ∉ line) :
    split source = .ok
      (((bounds none (OneTwo.events source).events).map (wholeLines (Text.lines source))).filter
        fun d => !d.isBlank) := by
  unfold split
  dsimp only
  rw [haccepted]
  dsimp only
  rw [mapM_between (inLines_bounds hcr)]
  rfl

theorem accepted_of_split {documents : List Document} (h : split source = .ok documents) :
    (OneTwo.events source).failure = none := by
  unfold split at h
  dsimp only at h
  split at h
  · exact nomatch h
  next hnone => exact hnone

/-- **Splitting stays in the file and keeps whole lines**, where no line holds a CR.  Each document
of the stream that holds something has the lines from its start to its end, and no start or end lies
behind the last line.  What it says is read from these lines alone, and all that is read starts in
the file. -/
theorem split_wholeLines (haccepted : (OneTwo.events source).failure = none)
    (hcr : ∀ line ∈ Text.lines source, '\r' ∉ line) :
    ∃ documents, split source = .ok documents ∧
      documents = ((bounds none (OneTwo.events source).events).map
        (wholeLines (Text.lines source))).filter
        (fun d => !d.isBlank) ∧
      (∀ b ∈ bounds none (OneTwo.events source).events,
        b.1.line ≤ (Text.lines source).length ∧ behind b.2 ≤ (Text.lines source).length) ∧
      ∀ d ∈ documents, Text.lines d.text = d.lines ∧
        (∀ i line, d.lines[i]? = some line → (Text.lines source)[d.firstLine + i]? = some line) ∧
        ∀ file events, d.events file = .ok events → ∀ e ∈ events,
        d.firstLine ≤ e.location.start.line ∧
        InLines (Text.lines source) e.location.start.line e.location.start.column := by
  have hfound := inLines_bounds hcr
  refine ⟨_, split_eq haccepted hcr, rfl,
    fun b hb => ⟨(hfound b hb).1.line_le, (hfound b hb).2.behind_le⟩, fun d hd => ?_⟩
  obtain ⟨b, hb, rfl⟩ := List.mem_map.mp (List.mem_filter.mp hd).1
  have hsublist : (wholeLines (Text.lines source) b).lines.Sublist (Text.lines source) :=
    (List.take_sublist _ _).trans (List.drop_sublist _ _)
  have hread : Text.lines (wholeLines (Text.lines source) b).text
      = (wholeLines (Text.lines source) b).lines :=
    Text.lines_joined (fun l hl => Text.lf_not_mem_linesFrom source List.not_mem_nil l
      (hsublist.subset hl)) fun l hl => hcr l (hsublist.subset hl)
  refine ⟨hread, fun i line hline => ?_, fun file events hevents e he => ?_⟩
  · change ((Text.lines source).drop b.1.line |>.take _)[i]? = _ at hline
    rw [List.getElem?_take] at hline
    split at hline
    · rwa [List.getElem?_drop] at hline
    · exact nomatch hline
  · have hstart : ∀ e ∈ (OneTwo.events (wholeLines (Text.lines source) b).text).events,
        InLines (wholeLines (Text.lines source) b).lines e.2.line e.2.column := fun e he => by
      obtain ⟨_, hstands⟩ := OneTwo.marked_events _ e he
      rw [← hread]
      exact hstands.inLines (by rw [hread]; exact fun l hl => hcr l (hsublist.subset hl))
    obtain ⟨mark, hmark, hplace⟩ :=
      start_of_events (P := fun m =>
        InLines (wholeLines (Text.lines source) b).lines m.line m.column) hstart
          (InLines.zero _) hevents e he
    rw [hplace]
    exact ⟨Nat.le_add_right _ _, hmark.shift (hfound b hb).1.line_le⟩

/-- Two documents whose lines end at LF and at CR LF. -/
def mixedBreaks : List Char := "module: M\r\n---\ndomain:\r\n  name: D\n".toList

theorem split_mixedBreaks : split mixedBreaks
    = .ok [⟨0, ["module: M".toList]⟩,
      ⟨1, ["---".toList, "domain:".toList, "  name: D".toList]⟩] := by
  have haccepted : (OneTwo.events mixedBreaks).failure = none :=
    Option.isNone_iff_eq_none.mp (by decide +kernel)
  obtain ⟨documents, hsplit, hdocuments, -⟩ := split_wholeLines haccepted (by decide +kernel)
  rw [hsplit, hdocuments]
  exact congrArg Except.ok (by decide +kernel)

/-- Behind two CR alone a document starts at a line that the file does not have. -/
example : (split "\r\rmodule: M".toList).toOption = none := by decide +kernel

end EntityModel.Source.Document
