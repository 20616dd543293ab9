import EntityModel.Yaml.OneTwo
import EntityModel.Proofs.Yaml.Tokens

/-!
# Where events stand

The grammar of YAML 1.2 puts each event at the start of a token, or where the text was read to.
-/

namespace EntityModel.Yaml

/-- The rules put no node at its properties, and an empty node at a token beside it. -/
structure Rules.AtStarts (rules : Rules) : Prop where
  properties : rules.startsAtProperties = false
  empty (t n : Token) : rules.emptyAt t n = n.start
  emptyInFlow (t n : Token) : rules.emptyInFlowAt t n = t.start

theorem OneTwo.rules_atStarts : OneTwo.rules.AtStarts := ⟨rfl, fun _ _ => rfl, fun _ _ => rfl⟩

namespace Parser

/-- The tokens ahead start at marks with `P`, and so far the text was read to one. -/
structure Within (P : Mark → Prop) (p : Parser) : Prop where
  tokens : ∀ t ∈ p.tokens, P t.start ∧ P t.readTo
  readTo : P p.readTo

variable {P : Mark → Prop} {rules : Rules}

abbrev Placed (P : Mark → Prop) (x : Parse (Event × Mark)) : Prop :=
  Upholds (Within P) x fun e => P e.2

theorem within_modify {g : Parser → Parser} (hg : ∀ p, p.Within P → (g p).Within P) :
    Upholds (ε := Stop) (Within P) (modify g) fun _ => True :=
  fun _ hp => .run rfl ⟨hg _ hp, trivial⟩

theorem within_peek : Upholds (Within P) peek fun t => P t.start := by
  intro p hp
  refine .step rfl ?_
  cases htokens : p.tokens with
  | nil => exact .throw
  | cons t tokens =>
    have ht := hp.tokens t (htokens ▸ List.mem_cons_self)
    exact .step rfl (.pure ⟨⟨hp.tokens, ht.2⟩, ht.1⟩)

theorem within_skip : Upholds (Within P) skip fun _ => True :=
  within_modify fun _ hp => ⟨fun t ht => hp.tokens t (List.mem_of_mem_tail ht), hp.readTo⟩

theorem within_become (frames : List Frame) : Upholds (Within P) (become frames) fun _ => True :=
  within_modify fun _ hp => ⟨hp.tokens, hp.readTo⟩

theorem upholds_fail {α : Type} {Q : α → Prop} (cause : GrammarFault) (mark : Mark)
    (context : Option Mark) :
    Upholds (Within P) (fail cause mark context) Q := fun _ _ => .throw

/-- An event behind a change of the expectations, and perhaps behind its token. -/
theorem placed_become {frames : List Frame} {e : Event × Mark} (he : P e.2) :
    Placed P (become frames >>= fun _ => pure e) := .seq (within_become _) (.pure he)

theorem placed_closed {frames : List Frame} {e : Event × Mark} (he : P e.2) :
    Placed P (become frames >>= fun _ => skip >>= fun _ => pure e) := by
  apply Upholds.seq (within_become _)
  apply Upholds.seq within_skip
  exact .pure he

/-! ### Nodes -/

theorem within_registerAnchor (name : String) :
    Upholds (Within P) (registerAnchor name) fun _ => True :=
  within_modify fun _ hp => ⟨hp.tokens, hp.readTo⟩

theorem within_anchor? : Upholds (Within P) anchor? fun _ => True := by
  apply Upholds.bind within_peek
  intro t _
  split
  · apply Upholds.seq within_skip
    apply Upholds.seq (within_registerAnchor _)
    exact .pure trivial
  · exact .pure trivial

theorem within_resolve (start mark : Mark) (handle suffix : String) :
    Upholds (Within P) (resolve rules start mark handle suffix) fun _ => True := by
  apply Upholds.bind .get
  intro p _
  split
  · exact .pure trivial
  · exact upholds_fail _ _ _

theorem within_properties : Upholds (Within P) (properties rules) fun _ => True := by
  have hanswer : ∀ {start mark : Mark} {handle suffix : String} {f : String →
      Option String × Option String × Option Mark},
      Upholds (Within P) (resolve rules start mark handle suffix >>= fun tag => pure (f tag))
        fun _ => True :=
    .bind (within_resolve _ _ _ _) fun _ _ => .pure trivial
  apply Upholds.bind within_peek
  intro first _
  split
  · apply Upholds.seq within_skip
    apply Upholds.seq (within_registerAnchor _)
    apply Upholds.bind within_peek
    intro second _
    split
    · apply Upholds.seq within_skip
      refine Upholds.option ?_ hanswer
      exact .bind within_peek fun _ _ => .pure trivial
    · exact .pure trivial
  · apply Upholds.seq within_skip
    apply Upholds.ite
    · apply Upholds.bind (within_resolve _ _ _ _)
      intro tag _
      exact .bind within_anchor? fun _ _ => .pure trivial
    · apply Upholds.bind within_anchor?
      intro anchor _
      refine Upholds.bind (P := fun _ => True) ?_ fun _ _ => hanswer
      exact .bind within_peek fun _ _ => .pure trivial
  · exact .pure trivial

theorem placed_noContent {block : Bool} {after : List Frame} {anchor tag : Option String}
    {propertyMark : Option Mark} {t : Token} {start : Mark} (hstart : P start) :
    Placed P (node.noContent rules block after anchor tag propertyMark t start) :=
  .ite (placed_become hstart) (upholds_fail _ _ _)

theorem placed_node (hr : rules.AtStarts) (block indentless : Bool) (after : List Frame) :
    Placed P (node rules block indentless after) := by
  apply Upholds.bind within_peek
  intro first hfirst
  split
  · apply Upholds.seq (within_become _)
    apply Upholds.seq within_skip
    apply Upholds.bind .get
    intro p _
    exact .option (upholds_fail _ _ _) (.pure hfirst)
  apply Upholds.bind within_properties
  intro found _
  apply Upholds.bind within_peek
  intro t ht
  have hstart : P (if rules.startsAtProperties = true then found.2.2.getD t.start
    else t.start) := by
    rwa [hr.properties]
  dsimp only
  split
  · exact .ite (placed_become hstart) (placed_noContent hstart)
  · exact placed_closed hstart
  · exact placed_become hstart
  · exact placed_become hstart
  · exact .ite (placed_become hstart) (placed_noContent hstart)
  · exact .ite (placed_become hstart) (placed_noContent hstart)
  · exact placed_noContent hstart

theorem placed_emptyNode {mark : Mark} {after : List Frame} (hmark : P mark) :
    Placed P (emptyNode rules mark after) :=
  placed_become hmark

/-! ### Documents -/

theorem within_directives :
    ∀ fuel versionSeen, Upholds (Within P) (directives rules fuel versionSeen) fun _ => True
  | 0, _ => .pure trivial
  | fuel + 1, versionSeen => by
    have ih := within_directives fuel
    apply Upholds.bind within_peek
    intro t _
    split
    · apply Upholds.option (upholds_fail _ _ _)
      apply Upholds.option (upholds_fail _ _ _)
      refine Upholds.option (within_modify fun _ hp => ⟨hp.tokens, hp.readTo⟩) ?_
      apply Upholds.seq within_skip
      exact ih true
    · apply Upholds.bind .get
      intro p _
      apply Upholds.option (upholds_fail _ _ _)
      refine Upholds.seq (within_modify fun _ hp => ⟨hp.tokens, hp.readTo⟩) ?_
      apply Upholds.seq within_skip
      exact ih versionSeen
    · exact .pure trivial

theorem placed_explicitDocument (hr : rules.AtStarts) : Placed P (explicitDocument rules) := by
  apply Upholds.bind within_peek
  intro first _
  apply Upholds.bind .get
  intro p _
  apply Upholds.seq (within_directives _ _)
  apply Upholds.bind within_peek
  intro t ht
  split
  · apply Upholds.seq (within_become _)
    apply Upholds.seq within_skip
    refine .pure ?_
    rwa [hr.properties]
  · exact upholds_fail _ _ _

theorem placed_document (hr : rules.AtStarts) (implicit : Bool) :
    Placed P (document rules implicit) := by
  unfold document
  apply Upholds.option
  · exact within_modify fun _ hp =>
      ⟨fun t ht => hp.tokens t ((List.dropWhile_sublist _).subset ht), hp.readTo⟩
  refine Upholds.seq (within_modify fun _ hp => ⟨hp.tokens, hp.readTo⟩) ?_
  apply Upholds.bind within_peek
  intro t ht
  split
  · exact .seq within_skip (placed_become ht)
  · exact placed_explicitDocument hr
  · exact placed_explicitDocument hr
  · exact placed_explicitDocument hr
  · exact .ite (placed_become ht) (placed_explicitDocument hr)

theorem placed_content (hr : rules.AtStarts) : Placed P (content rules) := by
  apply Upholds.bind within_peek
  intro t ht
  split
  on_goal 6 => exact placed_node hr _ _ _
  all_goals exact placed_emptyNode ht

theorem placed_documentEnd : Placed P (documentEnd rules) := by
  apply Upholds.bind within_peek
  intro t ht
  refine Upholds.seq (within_modify fun _ hp => ⟨hp.tokens, hp.readTo⟩) ?_
  extract_lets body
  have hbody : Placed P (body ()) := .pure ht
  split
  · apply Upholds.seq within_skip
    exact .seq (within_become _) hbody
  · exact .option (upholds_fail _ _ _) (.seq (within_become _) hbody)
  · exact .option (upholds_fail _ _ _) (.seq (within_become _) hbody)
  · exact .seq (within_become _) hbody

/-! ### Block collections -/

theorem placed_blockSequence (hr : rules.AtStarts) (opened : Option Mark) :
    Placed P (blockSequence rules opened) := by
  apply Upholds.bind within_peek
  intro start _
  apply Upholds.option within_skip
  apply Upholds.bind within_peek
  intro t ht
  split
  · exact placed_closed ht
  · apply Upholds.seq within_skip
    apply Upholds.bind within_peek
    intro n hn
    have hempty : P (rules.emptyAt t n) := hr.empty t n ▸ hn
    split
    · exact placed_emptyNode hempty
    · exact placed_emptyNode hempty
    · exact placed_node hr _ _ _
  · exact upholds_fail _ _ _

theorem placed_indentlessSequence (hr : rules.AtStarts) : Placed P (indentlessSequence rules) := by
  apply Upholds.bind within_peek
  intro t ht
  split
  · apply Upholds.seq within_skip
    apply Upholds.bind within_peek
    intro n hn
    have hempty : P (rules.emptyAt t n) := hr.empty t n ▸ hn
    split
    on_goal 5 => exact placed_node hr _ _ _
    all_goals exact placed_emptyNode hempty
  · exact placed_become ht

theorem placed_blockMappingKey (hr : rules.AtStarts) (opened : Option Mark) :
    Placed P (blockMappingKey rules opened) := by
  apply Upholds.bind within_peek
  intro start _
  apply Upholds.option within_skip
  apply Upholds.bind within_peek
  intro t ht
  split
  · apply Upholds.seq within_skip
    apply Upholds.bind within_peek
    intro n hn
    have hempty : P (rules.emptyAt t n) := hr.empty t n ▸ hn
    split
    on_goal 4 => exact placed_node hr _ _ _
    all_goals exact placed_emptyNode hempty
  · exact .ite (placed_emptyNode ht) (upholds_fail _ _ _)
  · exact placed_closed ht
  · exact upholds_fail _ _ _

theorem placed_blockMappingValue (hr : rules.AtStarts) (opened : Mark) :
    Placed P (blockMappingValue rules opened) := by
  apply Upholds.bind within_peek
  intro t ht
  split
  · apply Upholds.seq within_skip
    apply Upholds.bind within_peek
    intro n hn
    have hempty : P (rules.emptyAt t n) := hr.empty t n ▸ hn
    split
    on_goal 4 => exact placed_node hr _ _ _
    all_goals exact placed_emptyNode hempty
  · exact placed_emptyNode ht

/-! ### Flow collections -/

theorem placed_flowSequence (hr : rules.AtStarts) (opened : Option Mark) :
    Placed P (flowSequence rules opened) := by
  apply Upholds.bind within_peek
  intro start _
  apply Upholds.option within_skip
  apply Upholds.bind within_peek
  intro t ht
  refine Upholds.ite (placed_closed ht) ?_
  extract_lets more body
  have hbody : Placed P (body ()) := by
    apply Upholds.bind within_peek
    intro t ht
    split
    · exact placed_closed ht
    · exact placed_closed ht
    · exact placed_node hr _ _ _
  exact .ite (.option (upholds_fail _ _ _) (.seq within_skip hbody)) hbody

theorem placed_pairKey (hr : rules.AtStarts) : Placed P (pairKey rules) := by
  apply Upholds.bind within_peek
  intro t ht
  have hempty : P (if rules.startsAtProperties = true then t.stop else t.start) := by
    rwa [hr.properties]
  split
  on_goal 4 => exact placed_node hr _ _ _
  all_goals exact .seq within_skip (placed_emptyNode hempty)

theorem placed_pairValue (hr : rules.AtStarts) : Placed P (pairValue rules) := by
  apply Upholds.bind within_peek
  intro t ht
  split
  · apply Upholds.seq within_skip
    apply Upholds.bind within_peek
    intro n hn
    split
    · exact placed_emptyNode hn
    · exact placed_emptyNode hn
    · exact placed_node hr _ _ _
  · exact placed_emptyNode ht

theorem placed_pairEnd : Placed P (pairEnd rules) := by
  unfold pairEnd
  extract_lets body
  have hbody : ∀ mark, P mark → Placed P (body mark) := fun _ hmark => placed_become hmark
  refine .ite (.bind .get fun p hp => ?_) (.bind within_peek fun t ht => ?_)
  · exact .bind (.pure hp.readTo) hbody
  · exact .bind (.pure ht) hbody

theorem placed_flowMappingKey (hr : rules.AtStarts) (opened : Option Mark) :
    Placed P (flowMappingKey rules opened) := by
  apply Upholds.bind within_peek
  intro start _
  apply Upholds.option within_skip
  apply Upholds.bind within_peek
  intro before hbefore
  refine Upholds.ite (placed_closed hbefore) ?_
  extract_lets first value body
  have hbody : Placed P (body ()) := by
    apply Upholds.bind within_peek
    intro t ht
    split
    · apply Upholds.seq within_skip
      apply Upholds.bind within_peek
      intro n hn
      split
      on_goal 4 => exact placed_node hr _ _ _
      all_goals exact placed_emptyNode hn
    · refine placed_closed ?_
      dsimp only
      split
      · exact hbefore
      · exact ht
    · exact .ite (placed_emptyNode ht) (placed_node hr _ _ _)
    · exact placed_node hr _ _ _
  exact .ite (.option (upholds_fail _ _ _) (.seq within_skip hbody)) hbody

theorem placed_flowMappingValue (hr : rules.AtStarts) (opened : Mark) (present : Bool) :
    Placed P (flowMappingValue rules opened present) := by
  apply Upholds.bind within_peek
  intro t ht
  split
  · apply Upholds.seq within_skip
    apply Upholds.bind within_peek
    intro n hn
    have hempty : P (rules.emptyInFlowAt t n) := hr.emptyInFlow t n ▸ ht
    split
    · exact placed_emptyNode hempty
    · exact placed_emptyNode hempty
    · exact placed_node hr _ _ _
  · exact placed_emptyNode ht

/-! ### Runs -/

theorem placed_step (hr : rules.AtStarts) (frame : Frame) : Placed P (step rules frame) := by
  cases frame with
  | stream =>
    apply Upholds.bind within_peek
    intro t ht
    exact .option (upholds_fail _ _ _) (placed_closed ht)
  | document implicit => exact placed_document hr implicit
  | content => exact placed_content hr
  | documentEnd => exact placed_documentEnd
  | node => exact placed_node hr true false []
  | blockSequence opened => exact placed_blockSequence hr opened
  | indentlessSequence => exact placed_indentlessSequence hr
  | blockMappingKey opened => exact placed_blockMappingKey hr opened
  | blockMappingValue opened => exact placed_blockMappingValue hr opened
  | flowSequence opened => exact placed_flowSequence hr opened
  | pairKey => exact placed_pairKey hr
  | pairValue => exact placed_pairValue hr
  | pairEnd => exact placed_pairEnd
  | flowMappingKey opened => exact placed_flowMappingKey hr opened
  | flowMappingValue opened present => exact placed_flowMappingValue hr opened present

theorem placed_run (hr : rules.AtStarts) :
    ∀ fuel {p : Parser}, p.Within P → ∀ e ∈ (run rules fuel p).1, P e.2
  | 0, _, _ => fun _ he => absurd he List.not_mem_nil
  | fuel + 1, p, hp => fun e he => by
    unfold run at he
    split at he
    · exact absurd he List.not_mem_nil
    next frame _ _ =>
    split at he
    · exact absurd he List.not_mem_nil
    next event p' hstep =>
    obtain ⟨hp', hevent⟩ := placed_step hr frame p hp _ _ hstep
    rcases List.mem_cons.mp he with rfl | he
    · exact hevent
    · exact placed_run hr fuel hp' e he

end Parser

/-- **Events stand where the lexer can.** -/
theorem OneTwo.marked_events (text : List Char) : ∀ e ∈ (OneTwo.events text).events,
    Marked text e.2 := by
  have hstart : Parser.Within
      (Marked text) { tokens := (OneTwo.tokens text).tokens, frames := [.stream] } :=
    ⟨OneTwo.marked_tokens text, marked_start text⟩
  unfold OneTwo.events EventStream.ofTokens
  exact Parser.placed_run OneTwo.rules_atStarts _ hstart

end EntityModel.Yaml
