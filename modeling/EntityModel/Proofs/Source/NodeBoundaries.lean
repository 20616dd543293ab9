import EntityModel.Source.Events
import EntityModel.Source.Reader
import EntityModel.Proofs.Source.Reading

/-!
# Where nodes end

The events of a node are balanced (`Node.balanced_events`), and a depth that never falls below one
while balanced events are skipped (`Balanced.skipFrom`) comes back to zero at the last event of the
node and not before.  Mappings and sequences look for their end only between two nodes, so whatever
reads the nodes, if it stops right behind each of them, it is called once for each and the end is
met behind the last one (`node_boundaries`).
-/

namespace EntityModel.Source

/-! ### Balanced events -/

/-- What is opened is closed again, by an end of its own kind. -/
inductive Balanced : List Event → Prop
  | nil : Balanced []
  | scalar {text : String} {l : Location} {later : List Event} : Balanced later →
      Balanced (⟨.scalar text, l⟩ :: later)
  | mapping {l l' : Location} {inside later : List Event} : Balanced inside → Balanced later →
      Balanced (⟨.mappingStart, l⟩ :: (inside ++ ⟨.mappingEnd, l'⟩ :: later))
  | sequence {l l' : Location} {inside later : List Event} : Balanced inside → Balanced later →
      Balanced (⟨.sequenceStart, l⟩ :: (inside ++ ⟨.sequenceEnd, l'⟩ :: later))

theorem Balanced.append {events later : List Event} (h : Balanced events)
    (hlater : Balanced later) :
    Balanced (events ++ later) := by
  induction h with
  | nil => exact hlater
  | scalar _ ih => exact .scalar ih
  | mapping hinside _ _ ih =>
    rw [List.cons_append, List.append_assoc]
    exact .mapping hinside ih
  | sequence hinside _ _ ih =>
    rw [List.cons_append, List.append_assoc]
    exact .sequence hinside ih

mutual

/-- **The events of a node are balanced.** -/
theorem Node.balanced_events (o : Offset) : ∀ node : Node, Balanced (node.events o)
  | .scalar s => by
    rw [Node.events]
    exact .scalar .nil
  | .mapping start stop entries => by
    rw [Node.events]
    exact .mapping (balanced_entryEvents o entries) .nil
  | .sequence start stop items => by
    rw [Node.events]
    exact .sequence (balanced_itemEvents o items) .nil

theorem Node.balanced_entryEvents (o : Offset) : ∀ entries : List (Scalar × Node),
    Balanced (Node.entryEvents o entries)
  | [] => by
    rw [Node.entryEvents]
    exact .nil
  | (key, value) :: rest => by
    rw [Node.entryEvents]
    exact .scalar ((balanced_events o value).append (balanced_entryEvents o rest))

theorem Node.balanced_itemEvents (o : Offset) :
    ∀ items : List Node, Balanced (Node.itemEvents o items)
  | [] => by
    rw [Node.itemEvents]
    exact .nil
  | item :: rest => by
    rw [Node.itemEvents]
    exact (balanced_events o item).append (balanced_itemEvents o rest)

end

/-! ### Skipping -/

/-- The reader that comes to `r` once it has read `events`. -/
def Reader.before (r : Reader) (events : List Event) : Reader := { r with rest := events ++ r.rest }

namespace Reader

variable (r : Reader)

@[simp] theorem before_nil : r.before [] = r := rfl

@[simp] theorem before_append (events later : List Event) :
    r.before (events ++ later) = (r.before later).before events := by
  simp [before]

@[simp] theorem rest_before (events : List Event) : (r.before events).rest = events ++ r.rest := rfl

end Reader

section Skipping

variable {r : Reader} {e : Event} {fuel depth : Nat}

theorem skipFrom_opening (h : e.kind = .mappingStart ∨ e.kind = .sequenceStart) :
    Read.skipFrom (fuel + 1) depth (r.before [e]) = Read.skipFrom fuel (depth + 1) r := by
  obtain ⟨kind, l⟩ := e
  rcases h with rfl | rfl <;> rfl

theorem skipFrom_scalar {text : String} {l : Location} :
    Read.skipFrom (fuel + 1) (depth + 1) (r.before [⟨.scalar text, l⟩])
      = Read.skipFrom fuel (depth + 1) r := rfl

theorem skipFrom_closing (h : e.kind = .mappingEnd ∨ e.kind = .sequenceEnd) :
    Read.skipFrom (fuel + 1) (depth + 2) (r.before [e]) = Read.skipFrom fuel (depth + 1) r := by
  obtain ⟨kind, l⟩ := e
  rcases h with rfl | rfl <;> rfl

/-- At depth one an end is the last event. -/
theorem skipFrom_last (h : e.kind = .mappingEnd ∨ e.kind = .sequenceEnd) :
    Read.skipFrom (fuel + 1) 1 (r.before [e]) = .ok () r := by
  obtain ⟨kind, l⟩ := e
  rcases h with rfl | rfl <;> rfl

/-- Within a collection, another one is skipped from its start to its end. -/
theorem skipFrom_collection {opening closing : Event} {inside later : List Event}
    (hopening : opening.kind = .mappingStart ∨ opening.kind = .sequenceStart)
    (hclosing : closing.kind = .mappingEnd ∨ closing.kind = .sequenceEnd)
    (hinside : ∀ {fuel depth} {r : Reader},
      Read.skipFrom (inside.length + fuel) (depth + 1) (r.before inside)
      = Read.skipFrom fuel (depth + 1) r)
    (hlater : ∀ {fuel depth} {r : Reader},
      Read.skipFrom (later.length + fuel) (depth + 1) (r.before later)
      = Read.skipFrom fuel (depth + 1) r) :
    Read.skipFrom ((opening :: (inside ++ closing :: later)).length + fuel) (depth + 1)
        (r.before (opening :: (inside ++ closing :: later)))
      = Read.skipFrom fuel (depth + 1) r := by
  have hlength : (opening :: (inside ++ closing :: later)).length + fuel
      = inside.length + (later.length + fuel + 1) + 1 := by simp; omega
  rw [hlength, ← List.singleton_append, Reader.before_append, skipFrom_opening hopening,
    Reader.before_append, hinside, ← List.singleton_append, Reader.before_append,
    skipFrom_closing hclosing, hlater]

/-- Within a collection, balanced events are skipped and leave the depth as it was. -/
theorem Balanced.skipFrom {events : List Event} (h : Balanced events) : ∀ {fuel depth} {r : Reader},
    Read.skipFrom (events.length + fuel) (depth + 1) (r.before events)
      = Read.skipFrom fuel (depth + 1) r := by
  induction h with
  | nil =>
    intro fuel depth r
    rw [List.length_nil, Nat.zero_add, Reader.before_nil]
  | @scalar text l later _ ih =>
    intro fuel depth r
    rw [List.length_cons, Nat.add_right_comm, ← List.singleton_append, Reader.before_append,
      skipFrom_scalar, ih]
  | mapping _ _ ihinside ihlater => exact skipFrom_collection (.inl rfl) (.inl rfl) ihinside ihlater
  | sequence _ _ ihinside ihlater =>
    exact skipFrom_collection (.inr rfl) (.inr rfl) ihinside ihlater

theorem skipNode_eq (r : Reader) : Read.skipNode r = Read.skipFrom (r.rest.length + 1) 0 r := rfl

theorem run_skipNode_collection {opening closing : Event} {inside : List Event}
    (hopening : opening.kind = .mappingStart ∨ opening.kind = .sequenceStart)
    (hclosing : closing.kind = .mappingEnd ∨ closing.kind = .sequenceEnd) (h : Balanced inside) :
    Read.skipNode (r.before (opening :: (inside ++ [closing]))) = .ok () r := by
  have hlength : (r.before (opening :: (inside ++ [closing]))).rest.length + 1
      = inside.length + (r.rest.length + 1 + 1) + 1 := by simp; omega
  rw [skipNode_eq, hlength, ← List.singleton_append, Reader.before_append,
    skipFrom_opening hopening, Reader.before_append, h.skipFrom, skipFrom_last hclosing]

/-- **The events of a node are skipped, and no more.** -/
theorem run_skipNode (o : Offset) (node : Node) :
    Read.skipNode (r.before (node.events o)) = .ok () r := by
  cases node with
  | scalar s =>
    rw [Node.events]
    rfl
  | mapping start stop entries =>
    rw [Node.events]
    exact run_skipNode_collection (.inl rfl) (.inl rfl) (Node.balanced_entryEvents o entries)
  | sequence start stop items =>
    rw [Node.events]
    exact run_skipNode_collection (.inr rfl) (.inr rfl) (Node.balanced_itemEvents o items)

end Skipping

/-! ### Mappings and sequences -/

/-- If `f` goes through before these events, it has taken all of them and no more. -/
def StopsBehind {α : Type} (f : Read α) (events : List Event) : Prop :=
  ∀ (r : Reader) (a : α) (r' : Reader), f (r.before events) = .ok a r' → r' = r

theorem Takes.stopsBehind {α : Type} {f : Read α} {events : List Event} {ok : Bool} {Q : α → Prop}
    (h : Takes f events ok Q) : StopsBehind f events := by
  intro r a r' hrun
  have houtcome := h r.file r.rest r.ending
  rw [show f ⟨r.file, events ++ r.rest, r.ending⟩ = .ok a r' from hrun] at houtcome
  exact houtcome.2.2

def Scalar.read (o : Offset) (s : Scalar) : Located String := ⟨s.text, o.ofScalar s⟩

section Collections

variable {σ α : Type} (o : Offset) (stop : Event)

/-- `f` called once for each entry in order, with its key and before the events of its value.  The
first call that fails is the last one; behind all of them the reader is `r`. -/
def eachEntry (f : σ → Located String → Read σ) :
    List (Scalar × Node) → σ → Reader → EStateM.Result LoadError Reader σ
  | [], acc, r => .ok acc r
  | (key, value) :: rest, acc, r =>
    match f acc (key.read o)
      ((r.before (Node.entryEvents o rest ++ [stop])).before (value.events o)) with
    | .ok acc _ => eachEntry f rest acc r
    | .error e r => .error e r

/-- `f` called once for each item in order, before the events of the item. -/
def eachItem (f : Read α) : List Node → Reader → EStateM.Result LoadError Reader (List α)
  | [], r => .ok [] r
  | item :: rest, r =>
    match f ((r.before (Node.itemEvents o rest ++ [stop])).before (item.events o)) with
    | .ok a _ =>
      match eachItem f rest r with
      | .ok as r => .ok (a :: as) r
      | .error e r => .error e r
    | .error e r => .error e r

variable {o stop} {r : Reader}

theorem run_entries_end {f : σ → Located String → Read σ} {acc : σ} {fuel : Nat}
    (h : stop.kind = .mappingEnd) :
    Read.entries f (fuel + 1) acc (r.before [stop]) = .ok acc r := by
  obtain ⟨kind, l⟩ := stop
  obtain rfl : kind = .mappingEnd := h
  rfl

theorem run_entries_entry {f : σ → Located String → Read σ} {acc : σ} {fuel : Nat} {key : Scalar} :
    Read.entries f (fuel + 1) acc (r.before [key.event o])
      = EStateM.bind (f acc (key.read o)) (Read.entries f fuel) r := rfl

/-- Behind the start of a mapping, the reader of the values is called once for each entry. -/
theorem run_entries {f : σ → Located String → Read σ} (hstop : stop.kind = .mappingEnd) :
    ∀ {entries : List (Scalar × Node)} {fuel : Nat} {acc : σ}, entries.length < fuel →
      (∀ e ∈ entries, ∀ acc, StopsBehind (f acc (e.1.read o)) (e.2.events o)) →
      Read.entries f fuel acc (r.before (Node.entryEvents o entries ++ [stop]))
        = eachEntry o stop f entries acc r := by
  intro entries
  induction entries with
  | nil =>
    rintro (_ | fuel) acc hfuel -
    · exact absurd hfuel (Nat.not_lt_zero _)
    · exact run_entries_end hstop
  | cons e entries ih =>
    rintro (_ | fuel) acc hfuel hf
    · exact absurd hfuel (Nat.not_lt_zero _)
    obtain ⟨key, value⟩ := e
    obtain ⟨hvalue, hf⟩ := List.forall_mem_cons.mp hf
    rw [Node.entryEvents, List.cons_append, ← List.singleton_append, Reader.before_append,
      run_entries_entry, List.append_assoc, Reader.before_append, EStateM.bind, eachEntry]
    cases hcall : f acc (key.read o)
      ((r.before (Node.entryEvents o entries ++ [stop])).before (value.events o)) with
    | error e r => rfl
    | ok acc r' =>
      obtain rfl := hvalue _ _ _ _ hcall
      exact ih (Nat.lt_of_succ_lt_succ hfuel) hf

theorem run_items_end {f : Read α} {fuel : Nat} (h : stop.kind = .sequenceEnd) :
    Read.items f (fuel + 1) (r.before [stop]) = .ok [] r := by
  obtain ⟨kind, l⟩ := stop
  obtain rfl : kind = .sequenceEnd := h
  rfl

theorem run_items_item {f : Read α} {fuel : Nat} {item : Node} :
    Read.items f (fuel + 1) (r.before (item.events o))
      = EStateM.bind f (fun a => EStateM.bind (Read.items f fuel) fun as => pure (a :: as))
        (r.before (item.events o)) := by
  obtain ⟨e, later, hevents, hkind⟩ := Reads.first_event o item
  rw [hevents]
  show EStateM.bind (Read.consumeIf .sequenceEnd) _ _ = _
  unfold EStateM.bind
  rw [Reader.before, List.cons_append, Takes.run_consumeIf,
    if_neg (by rw [hkind]; exact Bool.false_ne_true)]
  rfl

/-- Behind the start of a sequence, the reader of the items is called once for each. -/
theorem run_items {f : Read α} (hstop : stop.kind = .sequenceEnd) :
    ∀ {items : List Node} {fuel : Nat}, items.length < fuel →
    (∀ item ∈ items, StopsBehind f (item.events o)) →
      Read.items f fuel (r.before (Node.itemEvents o items ++ [stop]))
        = eachItem o stop f items r := by
  intro items
  induction items with
  | nil =>
    rintro (_ | fuel) hfuel -
    · exact absurd hfuel (Nat.not_lt_zero _)
    · exact run_items_end hstop
  | cons item items ih =>
    rintro (_ | fuel) hfuel hf
    · exact absurd hfuel (Nat.not_lt_zero _)
    obtain ⟨hitem, hf⟩ := List.forall_mem_cons.mp hf
    rw [Node.itemEvents, List.append_assoc, Reader.before_append, run_items_item,
      EStateM.bind, eachItem]
    cases hcall : f ((r.before (Node.itemEvents o items ++ [stop])).before (item.events o)) with
    | error e r => rfl
    | ok a r' =>
      obtain rfl := hitem _ _ _ hcall
      simp only [EStateM.bind, ih (Nat.lt_of_succ_lt_succ hfuel) hf]
      cases eachItem o stop f items r <;> rfl

theorem mapping_start {f : σ → Located String → Read σ} {acc : σ} {l : Location} :
    Read.mapping f acc (r.before [⟨.mappingStart, l⟩]) = Read.entries f (r.rest.length + 1) acc r :=
  rfl

theorem sequence_start {f : Read α} {l : Location} :
    Read.sequence f (r.before [⟨.sequenceStart, l⟩]) = Read.items f (r.rest.length + 1) r := rfl

/-- **A mapping calls the reader of its values once for each entry, and stops right behind its
end.** -/
theorem run_mapping {f : σ → Located String → Read σ} {acc : σ} {entries : List (Scalar × Node)}
    (first last : Yaml.Mark)
    (hf : ∀ e ∈ entries, ∀ acc, StopsBehind (f acc (e.1.read o)) (e.2.events o)) :
    Read.mapping f acc (r.before ((Node.mapping first last entries).events o))
      = eachEntry o ⟨.mappingEnd, o.point last⟩ f entries acc r := by
  have hlength := Reads.length_entries_le o ⟨.mappingEnd, o.point last⟩ entries
  rw [Node.events, ← List.singleton_append, Reader.before_append, mapping_start]
  refine run_entries rfl ?_ hf
  rw [Reader.rest_before, List.length_append]
  omega

/-- **A sequence calls the reader of its items once for each, and stops right behind its end.** -/
theorem run_sequence {f : Read α} {items : List Node} (first last : Yaml.Mark)
    (hf : ∀ item ∈ items, StopsBehind f (item.events o)) :
    Read.sequence f (r.before ((Node.sequence first last items).events o))
      = eachItem o ⟨.sequenceEnd, o.point last⟩ f items r := by
  have hlength := Reads.length_items_le o ⟨.sequenceEnd, o.point last⟩ items
  rw [Node.events, ← List.singleton_append, Reader.before_append, sequence_start]
  refine run_items rfl ?_ hf
  rw [Reader.rest_before, List.length_append]
  omega

theorem eachItem_scalar (stop : Event) (scalars : List Scalar) :
    eachItem o stop Read.scalar (scalars.map .scalar) r = .ok (scalars.map (·.read o)) r := by
  induction scalars with
  | nil => rfl
  | cons s scalars ih =>
    rw [List.map_cons, eachItem, ih, Node.events]
    rfl

/-- **A list of scalars is read as all of them.** -/
theorem run_scalarList {scalars : List Scalar} (first last : Yaml.Mark) :
    Read.scalarList (r.before ((Node.sequence first last (scalars.map .scalar)).events o))
      = .ok (scalars.map (·.read o)) r := by
  rw [← eachItem_scalar ⟨.sequenceEnd, o.point last⟩,
    ← run_sequence first last fun item _ => (Reads.scalar o item).stopsBehind, Node.events]
  rfl

end Collections

/-! ### Readers in the midst of a file -/

def Reader.standing (file : String) (before rest : List Event) : Reader :=
  { Reader.ofEvents file (before ++ rest) with rest }

theorem Reader.standing_before (file : String) (before events after : List Event) :
    (Reader.standing file (before ++ events) after).before events
      = .standing file before (events ++ after) := by
  rw [standing, standing, List.append_assoc]
  rfl

/-- **Events and readers agree on where nodes end.**  The events of a node are balanced and are
skipped exactly.  A mapping or a sequence, if the reader of its parts stops right behind each part,
calls it once for each of them in order and stops behind its own end; and a list of scalars is read
as all of them. -/
theorem node_boundaries (o : Offset) (node : Node) (file : String) (before after : List Event) :
    Balanced (node.events o) ∧
      Read.skipNode (.standing file before (node.events o ++ after))
        = .ok () (.standing file (before ++ node.events o) after) ∧
      (∀ first last entries, node = .mapping first last entries →
        ∀ {σ : Type} (f : σ → Located String → Read σ) (acc : σ),
          (∀ e ∈ entries, ∀ acc, StopsBehind (f acc (e.1.read o)) (e.2.events o)) →
          Read.mapping f acc (.standing file before (node.events o ++ after))
            = eachEntry o ⟨.mappingEnd, o.point last⟩ f entries acc
                (.standing file (before ++ node.events o) after)) ∧
      (∀ first last items, node = .sequence first last items → ∀ {α : Type} (f : Read α),
          (∀ item ∈ items, StopsBehind f (item.events o)) →
          Read.sequence f (.standing file before (node.events o ++ after))
            = eachItem o ⟨.sequenceEnd, o.point last⟩ f items
              (.standing file (before ++ node.events o) after)) ∧
      ∀ first last (scalars : List Scalar), node = .sequence first last (scalars.map .scalar) →
        Read.scalarList (.standing file before (node.events o ++ after))
          = .ok (scalars.map (·.read o)) (.standing file (before ++ node.events o) after) := by
  rw [← Reader.standing_before]
  refine ⟨node.balanced_events o, run_skipNode o node, ?_, ?_, ?_⟩
  · rintro first last entries rfl σ f acc hf
    exact run_mapping first last hf
  · rintro first last items rfl α f hf
    exact run_sequence first last hf
  · rintro first last scalars rfl
    exact run_scalarList first last

def taggedHeader : Node :=
  .mapping {} {} [(⟨"tags", {}⟩, .sequence {} {} [.scalar ⟨"a", {}⟩, .scalar ⟨"b", {}⟩]),
    (⟨"module", {}⟩, .scalar ⟨"M", {}⟩)]

/-- Where all its values are skipped, its keys come in order and all of it is read. -/
theorem node_boundaries_of_taggedHeader :
    Read.mapping (fun keys key => do Read.skipNode; return keys ++ [key.value]) []
        (.standing "A" [] (taggedHeader.events ⟨⟨0⟩, 0⟩ ++ []))
      = .ok ["tags", "module"] (.standing "A" (taggedHeader.events ⟨⟨0⟩, 0⟩) []) := by
  obtain ⟨-, -, hmapping, -⟩ := node_boundaries ⟨⟨0⟩, 0⟩ taggedHeader "A" [] []
  refine (hmapping _ _ _ rfl (fun keys key => do Read.skipNode; return keys ++ [key.value])
    [] ?_).trans rfl
  intro e _ keys r a r' hrun
  change EStateM.bind Read.skipNode _ _ = _ at hrun
  rw [EStateM.bind, run_skipNode] at hrun
  cases hrun
  rfl

end EntityModel.Source
