import EntityModel.Source.Events
import EntityModel.Proofs.Loading.Grammar
import Mathlib.Data.List.Forall2

/-!
# Reading one node

A reader that meets the events of a node either takes all of them and no more, or it fails.  `Takes`
says which of the two it is and what is known of the value; `Reads` says it for the events of every
node, where a shape decides.  Both are kept by running one after another, so that a block needs to
be looked at key by key only: `Reads.mapping` is the loop over the entries, with what holds of the
draft after the entries read so far as its invariant.
-/

namespace EntityModel.Source

open Grammar

/-- How reading ends where it should leave `rest`: if `ok` all before `rest` is taken and `Q` holds
of the value, else the error has the file and a place. -/
def Outcome {α : Type} (file : String) (rest : List Event) (ending : Location) (ok : Bool)
    (Q : α → Prop) :
    EStateM.Result LoadError Reader α → Prop
  | .ok a r => ok = true ∧ Q a ∧ r = ⟨file, rest, ending⟩
  | .error e _ => ok = false ∧ e.file = file ∧ e.location.isSome = true

/-- Before `events`, whatever comes behind them: if `ok` all of them are taken and no more, and `Q`
holds of the value; else reading fails. -/
def Takes {α : Type} (f : Read α) (events : List Event) (ok : Bool) (Q : α → Prop) : Prop :=
  ∀ (file : String) (rest : List Event) (ending : Location),
    Outcome file rest ending ok Q (f ⟨file, events ++ rest, ending⟩)

namespace Takes

variable {α β : Type} {f : Read α} {g : α → Read β} {events later : List Event} {ok okLater : Bool}
  {Q : α → Prop} {P : β → Prop}

theorem pure {a : α} (h : Q a) : Takes (Pure.pure a) [] true Q := fun _ _ _ => ⟨rfl, h, rfl⟩

theorem fail (cause : LoadCause) (l : Location) : Takes (Read.fail cause l) events false Q :=
  fun _ _ _ => ⟨rfl, rfl, rfl⟩

theorem mono (h : Takes f events ok Q) {Q' : α → Prop} (hQ : ∀ a, Q a → Q' a) :
    Takes f events ok Q' := by
  intro file rest ending
  have := h file rest ending
  revert this
  cases f ⟨file, events ++ rest, ending⟩ with
  | ok a r => exact fun ⟨hok, ha, hr⟩ => ⟨hok, hQ a ha, hr⟩
  | error e r => exact id

theorem bind (hf : Takes f events ok Q)
    (hg : ∀ a, ok = true → Q a → Takes (g a) later okLater P) :
    Takes (f >>= g) (events ++ later) (ok && okLater) P := by
  intro file rest ending
  have h := hf file (later ++ rest) ending
  rw [List.append_assoc]
  show Outcome _ _ _ _ _ (EStateM.bind f g _)
  unfold EStateM.bind
  revert h
  cases f ⟨file, events ++ (later ++ rest), ending⟩ with
  | error e r =>
    intro ⟨hok, hfile, hplace⟩
    exact ⟨by rw [hok]; rfl, hfile, hplace⟩
  | ok a r =>
    intro ⟨hok, ha, hr⟩
    have := hg a hok ha file rest ending
    rwa [hr, hok, Bool.true_and]

theorem bind_taken (hf : Takes f events true Q) (hg : ∀ a, Q a → Takes (g a) later okLater P) :
    Takes (f >>= g) (events ++ later) okLater P := by
  have := hf.bind fun a _ ha => hg a ha
  rwa [Bool.true_and] at this

theorem andThen (hf : Takes f events ok Q) (hg : ∀ a, ok = true → Q a → Takes (g a) [] okLater P) :
    Takes (f >>= g) events (ok && okLater) P := by
  have := hf.bind hg
  rwa [List.append_nil] at this

theorem bind_failed (hf : Takes f events false Q) : Takes (f >>= g) events false P := by
  have hlater : ∀ a, false = true → Q a → Takes (g a) [] false P :=
    fun _ h => absurd h Bool.false_ne_true
  exact hf.andThen hlater

theorem map {h : α → β} (hf : Takes f events ok Q) (hP : ∀ a, Q a → P (h a)) :
    Takes (f >>= fun a => Pure.pure (h a)) events ok P := by
  have := hf.andThen fun a _ ha => pure (a := h a) (hP a ha)
  rwa [Bool.and_true] at this

theorem require {value : Option α} (requirement : Requirement) (l : Location) :
    Takes (Read.require value requirement l) [] value.isSome (value = some ·) := by
  cases value with
  | none => exact fail _ _
  | some a => exact pure rfl

/-! ### The next event -/

variable {e : Event} {kind : EventKind}

theorem run_expect (file : String) (rest : List Event) (ending : Location) :
    Read.expect kind ⟨file, e :: rest, ending⟩
      = if e.kind.alike kind then .ok e ⟨file, rest, ending⟩
        else .error ⟨.expected kind e.kind, file, some e.location⟩ ⟨file, rest, ending⟩ := by
  show (if e.kind.alike kind = true then Pure.pure e else Read.fail _ _ : Read Event) _ = _
  split <;> rfl

theorem expect (h : e.kind.alike kind = true) : Takes (Read.expect kind) [e] true (· = e) := by
  intro file rest ending
  rw [List.cons_append, run_expect, if_pos h]
  exact ⟨rfl, rfl, rfl⟩

theorem expect_failed {Q : Event → Prop} (h : e.kind.alike kind = false) :
    Takes (Read.expect kind) (e :: later) false Q := by
  intro file rest ending
  rw [List.cons_append, run_expect, if_neg (by rw [h]; exact Bool.false_ne_true)]
  exact ⟨rfl, rfl, rfl⟩

theorem run_consumeIf (file : String) (rest : List Event) (ending : Location) :
    Read.consumeIf kind ⟨file, e :: rest, ending⟩
      = if e.kind.alike kind then .ok true ⟨file, rest, ending⟩
        else .ok false ⟨file, e :: rest, ending⟩ := by
  show (if e.kind.alike kind = true then _ else _ : Read Bool) _ = _
  split <;> rfl

theorem consumeIf (h : e.kind.alike kind = true) :
    Takes (Read.consumeIf kind) [e] true (· = true) := by
  intro file rest ending
  rw [List.cons_append, run_consumeIf, if_pos h]
  exact ⟨rfl, rfl, rfl⟩

theorem passBy {g : Bool → Read β} (h : e.kind.alike kind = false)
    (hg : Takes (g false) (e :: later) okLater P) :
    Takes (Read.consumeIf kind >>= g) (e :: later) okLater P := by
  intro file rest ending
  show Outcome _ _ _ _ _ (EStateM.bind (Read.consumeIf kind) g _)
  unfold EStateM.bind
  rw [List.cons_append, run_consumeIf, if_neg (by rw [h]; exact Bool.false_ne_true)]
  exact hg file rest ending

theorem isNext {g : Bool → Read β} (hg : Takes (g (e.kind.alike kind)) (e :: later) okLater P) :
    Takes (Read.isNext kind >>= g) (e :: later) okLater P := hg

theorem location {g : Location → Read β} (hg : ∀ l, Takes (g l) events ok P) :
    Takes (Read.location >>= g) events ok P := fun file rest ending => hg _ file rest ending

theorem withRest {loop : Nat → Read α} (h : ∀ n, events.length < n → Takes (loop n) events ok Q) :
    Takes (do loop ((← get).rest.length + 1)) events ok Q := by
  intro file rest ending
  refine h _ ?_ file rest ending
  show events.length < (events ++ rest).length + 1
  rw [List.length_append]
  omega

theorem scalar (text : String) (l : Location) :
    Takes Read.scalar [⟨.scalar text, l⟩] true (· = ⟨text, l⟩) := fun _ _ _ => ⟨rfl, rfl, rfl⟩

theorem scalar_failed {Q : Located String → Prop} (h : e.kind.alike (.scalar "") = false) :
    Takes Read.scalar (e :: later) false Q := by
  obtain ⟨kind, l⟩ := e
  intro file rest ending
  cases kind with
  | scalar text => exact absurd h (by simp [EventKind.alike])
  | _ => exact ⟨rfl, rfl, rfl⟩

end Takes

/-- Enters a mapping that has entries and reads its first key. -/
theorem Takes.firstKey {β : Type} {g : Event → Located String → Read β} {shape : Node → Bool}
    {P : β → Prop} {o : Offset}
    {node : Node} (hnone : ∀ node, entriesOf node = [] → shape node = false)
    (hg : ∀ start stop key value rest opening, node = .mapping start stop ((key, value) :: rest) →
      Takes (g opening ⟨key.text, o.ofScalar key⟩)
        (value.events o ++ (Node.entryEvents o rest ++ [⟨.mappingEnd, o.point stop⟩]))
        (shape node) P) :
    Takes (do
      let opening ← Read.expect .mappingStart
      let key ← Read.scalar
      g opening key) (node.events o) (shape node) P := by
  match node with
  | .scalar s =>
    rw [hnone _ rfl]
    exact Takes.bind_failed (Q := fun _ => True) (Takes.expect_failed rfl)
  | .sequence start stop items =>
    rw [hnone _ rfl]
    exact Takes.bind_failed (Q := fun _ => True) (Takes.expect_failed rfl)
  | .mapping start stop [] =>
    rw [hnone _ rfl]
    refine Takes.bind_taken (Takes.expect rfl) fun _ _ => ?_
    exact Takes.bind_failed (Q := fun _ => True) (Takes.scalar_failed rfl)
  | .mapping start stop ((key, value) :: rest) =>
    have hevents : Node.events o (.mapping start stop ((key, value) :: rest))
        = ⟨.mappingStart, o.ofCollection start stop⟩ :: key.event o ::
          (value.events o ++ (Node.entryEvents o rest ++ [⟨.mappingEnd, o.point stop⟩])) := by
      simp [Node.events, Node.entryEvents]
    rw [hevents]
    refine Takes.bind_taken (Takes.expect rfl) fun opening _ => ?_
    refine Takes.bind_taken (Takes.scalar key.text (o.ofScalar key)) fun first hfirst => ?_
    subst hfirst
    exact hg start stop key value rest opening rfl

/-- Before the events of a node: the reader takes them if the node has the shape, and fails else. -/
def Reads {α : Type} (f : Read α) (shape : Node → Bool) (Q : Node → α → Prop) : Prop :=
  ∀ (o : Offset) (node : Node), Takes f (node.events o) (shape node) (Q node)

namespace Reads

variable {α β : Type} {f : Read α} {shape : Node → Bool} {Q : Node → α → Prop}

theorem mono (h : Reads f shape Q) {Q' : Node → α → Prop} (hQ : ∀ node a, Q node a → Q' node a) :
    Reads f shape Q' := fun o node => (h o node).mono (hQ node)

theorem map {g : α → β} {P : Node → β → Prop} (h : Reads f shape Q)
    (hP : ∀ node a, Q node a → P node (g a)) : Reads (f >>= fun a => Pure.pure (g a)) shape P :=
  fun o node => (h o node).map (hP node)

/-! ### Scalars -/

/-- What is read from a scalar, by a reader that looks at its text. -/
theorem ofScalar {g : Located String → Read β} {test : String → Bool} {P : String → β → Prop}
    (hg : ∀ text l, Takes (g ⟨text, l⟩) [] (test text) (P text)) :
    Reads (Read.scalar >>= g) (isScalarOf test) fun node b => ∃ text, literal? node = some text ∧
      P text b := by
  intro o node
  cases node with
  | scalar s =>
    refine Takes.bind_taken (Takes.scalar _ _) fun a ha => ?_
    subst ha
    exact (hg _ _).mono fun b hb => ⟨s.text, rfl, hb⟩
  | mapping start stop entries =>
    exact Takes.bind_failed (Q := fun _ => True) (Takes.scalar_failed rfl)
  | sequence start stop items =>
    exact Takes.bind_failed (Q := fun _ => True) (Takes.scalar_failed rfl)

theorem scalar : Reads Read.scalar isScalar fun node s => literal? node = some s.value := by
  intro o node
  cases node with
  | scalar s => exact (Takes.scalar _ _).mono fun a ha => by rw [ha]; rfl
  | mapping start stop entries => exact Takes.scalar_failed rfl
  | sequence start stop items => exact Takes.scalar_failed rfl

theorem optionalScalar :
    Reads Read.optionalScalar isScalar fun node s => s.map Located.value = stated? node := by
  refine scalar.map fun node s hs => ?_
  rw [stated?, hs]
  by_cases h : (s.value == "~" || s.value == "null" || s.value == "") = true
  · rw [if_pos h]
    simp only [Bool.or_eq_true, beq_iff_eq] at h
    rcases h with (h | h) | h <;> rw [h] <;> rfl
  · rw [if_neg h]
    simp only [Bool.or_eq_true, beq_iff_eq, not_or] at h
    simp [Option.filter, h]

theorem string : Reads Read.string isScalar fun _ _ => True := scalar.map fun _ _ _ => trivial

theorem optionalString : Reads Read.optionalString isScalar fun node s => s = stated? node :=
  optionalScalar.map fun _ _ hs => hs

theorem bool : Reads Read.bool isBoolean fun node b => b = isScalarOf saysTrue node := by
  refine (ofScalar (P := fun text b => b = saysTrue text) fun text l => ?_).mono ?_
  · show Takes (if saysTrue text = true then Pure.pure true
      else if saysFalse text = true then Pure.pure false else Read.fail _ _) [] _ _
    cases htrue : saysTrue text with
    | true => exact .pure rfl
    | false =>
      cases hfalse : saysFalse text with
      | true => exact .pure rfl
      | false => exact .fail _ _
  · rintro node b ⟨text, htext, rfl⟩
    rw [isScalarOf, htext]
    rfl

theorem number : Reads Read.number isNumber fun _ _ => True := by
  refine (ofScalar (P := fun _ _ => True) fun text l => ?_).mono fun _ _ _ => trivial
  cases Read.number? text with
  | some n => exact .pure trivial
  | none => exact .fail _ _

/-! ### Collections -/

theorem length_items_le (o : Offset) (stop : Event) (nodes : List Node) :
    nodes.length ≤ (Node.itemEvents o nodes ++ [stop]).length := by
  induction nodes with
  | nil => exact Nat.zero_le _
  | cons node nodes ih =>
    have : 0 < (node.events o).length := by cases node <;> simp [Node.events]
    simp only [Node.itemEvents, List.length_append, List.length_cons] at ih ⊢
    omega

theorem length_entries_le (o : Offset) (stop : Event) (entries : List Entry) :
    entries.length ≤ (Node.entryEvents o entries ++ [stop]).length := by
  induction entries with
  | nil => exact Nat.zero_le _
  | cons e entries ih =>
    simp only [Node.entryEvents, List.length_append, List.length_cons] at ih ⊢
    omega

theorem first_event (o : Offset) (node : Node) :
    ∃ e later, node.events o = e :: later ∧ e.kind.alike .sequenceEnd = false := by
  cases node <;> exact ⟨_, _, rfl, rfl⟩

/-- The items of a sequence that has been entered, up to its end. -/
theorem items (hf : Reads f shape Q) (o : Offset) {stop : Event} (hstop : stop.kind = .sequenceEnd)
    (nodes : List Node) : ∀ fuel, nodes.length < fuel →
      Takes (Read.items f fuel) (Node.itemEvents o nodes ++ [stop]) (nodes.all shape)
        (List.Forall₂ Q nodes) := by
  have hend : stop.kind.alike .sequenceEnd = true := by rw [hstop]; rfl
  induction nodes with
  | nil =>
    rintro (_ | fuel) hfuel
    · exact absurd hfuel (Nat.not_lt_zero _)
    show Takes _ ([stop] ++ []) _ _
    refine Takes.bind_taken (Takes.consumeIf hend) fun b hb => ?_
    subst hb
    exact .pure .nil
  | cons node nodes ih =>
    rintro (_ | fuel) hfuel
    · exact absurd hfuel (Nat.not_lt_zero _)
    obtain ⟨e, later, he, hkind⟩ := first_event o node
    have hitem : Takes (do let item ← f; let rest ← Read.items f fuel; return item :: rest)
        (node.events o ++ (Node.itemEvents o nodes ++ [stop])) (shape node && nodes.all shape)
        (List.Forall₂ Q (node :: nodes)) := by
      refine (hf o node).bind fun a _ ha => ?_
      exact (ih fuel (by simpa using hfuel)).map fun as has => .cons ha has
    rw [Node.itemEvents, List.append_assoc, he] at *
    exact .passBy hkind hitem

theorem sequence (hf : Reads f shape Q) :
    Reads (Read.sequence f) (listOf shape) fun node as => List.Forall₂ Q (itemsOf node) as := by
  intro o node
  cases node with
  | scalar s => exact Takes.bind_failed (Q := fun _ => True) (Takes.expect_failed rfl)
  | mapping start stop entries =>
    exact Takes.bind_failed (Q := fun _ => True) (Takes.expect_failed rfl)
  | sequence start stop nodes =>
    refine Takes.bind_taken (Takes.expect rfl) fun _ _ => ?_
    exact Takes.withRest fun n hn =>
      items hf o rfl nodes n (Nat.lt_of_le_of_lt (length_items_le o _ nodes) hn)

theorem scalarList :
    Reads Read.scalarList scalars fun node names => names.isEmpty = !chooses node := by
  intro o node
  cases node with
  | scalar s =>
    refine Takes.isNext ((optionalScalar o (.scalar s)).map fun name hname => ?_)
    show _ = !((stated? (.scalar s)).isSome || false)
    rw [← hname]
    cases name <;> rfl
  | mapping start stop entries =>
    exact Takes.isNext (Takes.bind_failed (optionalScalar o (.mapping start stop entries)))
  | sequence start stop items =>
    refine Takes.isNext
      (((sequence scalar) o (.sequence start stop items)).mono fun names hnames => ?_)
    cases hnames <;> rfl

theorem stringList : Reads Read.stringList scalars fun _ _ => True :=
  scalarList.map fun _ _ _ => trivial

/-- Enters a mapping that has entries and reads its first key. -/
theorem firstKey {g : Event → Located String → Read β} {P : Node → β → Prop}
    (hnone : ∀ node, entriesOf node = [] → shape node = false)
    (hg : ∀ o start stop key value rest opening,
      Takes (g opening ⟨key.text, o.ofScalar key⟩)
        (value.events o ++ (Node.entryEvents o rest ++ [⟨.mappingEnd, o.point stop⟩]))
        (shape (.mapping start stop ((key, value) :: rest)))
        (P (.mapping start stop ((key, value) :: rest)))) :
    Reads (do
      let opening ← Read.expect .mappingStart
      let key ← Read.scalar
      g opening key) shape P :=
  fun o _ => Takes.firstKey hnone fun start stop key value rest opening h =>
    h ▸ hg o start stop key value rest opening

end Reads

/-- `f` reads the entries of a mapping one by one: what it has met is right as long as `ok` holds,
and `I` holds of what it has gathered. -/
structure Gathers {σ : Type} (f : σ → Located String → Read σ) (ok : List Entry → Bool)
    (I : List Entry → σ → Prop) : Prop where
  closed : ∀ before after, ok (before ++ after) = true → ok before = true
  step : ∀ before key acc l, ok before = true → I before acc →
    Reads (f acc ⟨key.text, l⟩) (fun node => ok (before ++ [(key, node)]))
      fun node acc => I (before ++ [(key, node)]) acc

namespace Gathers

variable {σ : Type} {f : σ → Located String → Read σ} {ok : List Entry → Bool}
  {I : List Entry → σ → Prop}

/-- The entries behind those of `before`, up to the end of the mapping. -/
theorem entries (h : Gathers f ok I) (o : Offset) {stop : Event} (hstop : stop.kind = .mappingEnd)
    (after : List Entry) : ∀ before acc fuel, after.length < fuel → ok before = true →
    I before acc →
      Takes (Read.entries f fuel acc) (Node.entryEvents o after ++ [stop]) (ok (before ++ after))
        (I (before ++ after)) := by
  have hend : stop.kind.alike .mappingEnd = true := by rw [hstop]; rfl
  induction after with
  | nil =>
    rintro before acc (_ | fuel) hfuel hok hI
    · exact absurd hfuel (Nat.not_lt_zero _)
    rw [List.append_nil, hok]
    show Takes _ ([stop] ++ []) _ _
    refine Takes.bind_taken (Takes.consumeIf hend) fun b hb => ?_
    subst hb
    exact .pure hI
  | cons e after ih =>
    rintro before acc (_ | fuel) hfuel hok hI
    · exact absurd hfuel (Nat.not_lt_zero _)
    obtain ⟨key, node⟩ := e
    have hlater : Takes (do let acc ← f acc ⟨key.text, o.ofScalar key⟩; Read.entries f fuel acc)
        (node.events o ++ (Node.entryEvents o after ++ [stop]))
        (ok (before ++ [(key, node)]) && ok (before ++ [(key, node)] ++ after))
        (I (before ++ [(key, node)] ++ after)) :=
      (h.step before key acc (o.ofScalar key) hok hI o node).bind fun acc hok hI =>
        ih _ acc fuel (by simpa using hfuel) hok hI
    have hclosed : (ok (before ++ [(key, node)]) && ok (before ++ [(key, node)] ++ after))
        = ok (before ++ [(key, node)] ++ after) := by
      rw [Bool.and_eq_right_iff_imp]
      exact h.closed _ _
    rw [hclosed, ← List.append_assoc, ← List.append_cons] at hlater
    have hkey : Takes (do let key ← Read.scalar; let acc ← f acc key; Read.entries f fuel acc)
        ([key.event o] ++ (node.events o ++ Node.entryEvents o after ++ [stop]))
        (ok (before ++ (key, node) :: after)) (I (before ++ (key, node) :: after)) :=
      (Takes.scalar key.text (o.ofScalar key)).bind fun located _ hlocated => hlocated ▸ hlater
    exact .passBy rfl hkey

/-- The entries of a mapping of which those of `before` are already read. -/
theorem remaining (h : Gathers f ok I) (o : Offset) {stop : Event} (hstop : stop.kind = .mappingEnd)
    (before after : List Entry) {acc : σ} (hok : ok before = true) (hI : I before acc) :
    Takes (Read.remaining f acc) (Node.entryEvents o after ++ [stop]) (ok (before ++ after))
      (I (before ++ after)) :=
  Takes.withRest fun n hn =>
    h.entries o hstop after before acc n
      (Nat.lt_of_le_of_lt (Reads.length_entries_le o _ after) hn) hok hI

theorem mapping (h : Gathers f ok I) {acc : σ} (hok : ok [] = true) (hI : I [] acc) :
    Reads (Read.mapping f acc) (mappingOf ok) fun node acc => I (entriesOf node) acc := by
  intro o node
  cases node with
  | scalar s => exact Takes.bind_failed (Q := fun _ => True) (Takes.expect_failed rfl)
  | sequence start stop items =>
    exact Takes.bind_failed (Q := fun _ => True) (Takes.expect_failed rfl)
  | mapping start stop entries =>
    exact Takes.bind_taken (Takes.expect rfl) fun _ _ =>
      h.remaining o rfl [] entries hok hI

theorem ofAny {shape : Node → Bool}
    (h : ∀ before key acc l, I before acc →
      Reads (f acc ⟨key.text, l⟩) shape fun node acc => I (before ++ [(key, node)]) acc) :
    Gathers f (fun entries => entries.all fun e => shape e.2) I where
  closed before after h := by
    rw [List.all_append, Bool.and_eq_true] at h
    exact h.1
  step before key acc l hok hI := by
    simp only [List.all_append, hok, Bool.true_and, List.all_cons, List.all_nil, Bool.and_true]
    exact h before key acc l hI

theorem known_concat (keys : Keys) (before : List Entry) (key : Scalar) (node : Node) :
    known keys (before ++ [(key, node)]) = (known keys before && fits keys key.text node) := by
  simp [known]

theorem ofKeys {keys : Keys}
    (h : ∀ before key acc l, I before acc →
      Reads (f acc ⟨key.text, l⟩) (fits keys key.text) fun node acc =>
        I (before ++ [(key, node)]) acc) :
    Gathers f (known keys) I where
  closed before after h := by
    rw [known, List.all_append, Bool.and_eq_true] at h
    exact h.1
  step before key acc l hok hI := by
    simp only [known_concat, hok, Bool.true_and]
    exact h before key acc l hI

end Gathers

end EntityModel.Source
