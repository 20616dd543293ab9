import EntityModel.Source.Events
import EntityModel.Proofs.Yaml.Readers

/-!
# Places of the nodes of a document

A tree is built from events and holds no other marks than theirs (`Node.within_ofEvents`).  The
events of a document in the file start at its first line, or at a mark of its tree moved by that
line.
-/

namespace EntityModel.Source

open Yaml

variable {P : Mark → Prop}

inductive Node.Within (P : Mark → Prop) : Node → Prop
  | scalar {s : Scalar} : P s.start → Within P (.scalar s)
  | mapping {start stop : Mark} {entries : List (Scalar × Node)} : P start → P stop →
    (∀ e ∈ entries, P e.1.start) →
      (∀ e ∈ entries, Within P e.2) → Within P (.mapping start stop entries)
  | sequence {start stop : Mark} {items : List Node} : P start → P stop →
    (∀ item ∈ items, Within P item) →
      Within P (.sequence start stop items)

namespace Node

inductive Partial.Within (P : Mark → Prop) : Partial → Prop
  | mapping {start : Mark} {entries : List (Scalar × Node)} {key : Option Scalar} : P start →
      (∀ e ∈ entries, P e.1.start ∧ e.2.Within P) → (∀ k ∈ key, P k.start) →
      Within P (.mapping start entries key)
  | sequence {start : Mark} {items : List Node} : P start → (∀ item ∈ items, item.Within P) →
      Within P (.sequence start items)

structure Builder.Within (P : Mark → Prop) (b : Builder) : Prop where
  around : ∀ p ∈ b.around, p.Within P
  done : ∀ node ∈ b.done, node.Within P

namespace Builder

variable {b b' : Builder}

theorem within_putEntry {key : Scalar} {value : Node} {entries : List (Scalar × Node)}
    (hkey : P key.start) (hvalue : value.Within P) (h : ∀ e ∈ entries, P e.1.start ∧ e.2.Within P) :
    ∀ e ∈ putEntry key value entries, P e.1.start ∧ e.2.Within P := by
  unfold putEntry
  split
  next first _ hfound =>
    refine List.forall_mem_cons.mpr ⟨⟨(h _ (List.mem_of_find?_eq_some hfound)).1, hvalue⟩,
      fun e he => ?_⟩
    exact h e (List.mem_filter.mp he).1
  · exact List.forall_mem_cons.mpr ⟨⟨hkey, hvalue⟩, h⟩

theorem within_place {node : Node} (hnode : node.Within P) (h : b.Within P) :
    (b.place node).Within P := by
  unfold place
  split
  · exact ⟨h.around, fun _ hdone => Option.mem_some.mp hdone ▸ hnode⟩
  next start items rest haround =>
    obtain ⟨hfirst, hrest⟩ := List.forall_mem_cons.mp (haround ▸ h.around)
    cases hfirst with
    | sequence hstart hitems =>
      exact ⟨List.forall_mem_cons.mpr ⟨.sequence hstart (List.forall_mem_cons.mpr ⟨hnode, hitems⟩),
        hrest⟩, h.done⟩
  next start entries key rest haround =>
    obtain ⟨hfirst, hrest⟩ := List.forall_mem_cons.mp (haround ▸ h.around)
    cases hfirst with
    | mapping hstart hentries hkey =>
      have hput := within_putEntry (hkey key rfl) hnode hentries
      exact ⟨List.forall_mem_cons.mpr ⟨.mapping hstart hput (fun _ hk => nomatch hk), hrest⟩,
        h.done⟩
  · exact h

theorem within_opened {p : Partial} (hp : p.Within P) (h : b.Within P) :
    Within P { b with around := p :: b.around } := ⟨List.forall_mem_cons.mpr ⟨hp, h.around⟩, h.done⟩

theorem within_scalar {text : String} {mark : Mark} {anchor tag : Option String} (hmark : P mark)
    (h : b.Within P) (hb : b.scalar text mark anchor tag = .ok b') : b'.Within P := by
  unfold scalar at hb
  split at hb
  · exact nomatch hb
  split at hb
  · exact nomatch hb
  split at hb
  · exact nomatch hb
  next start entries rest haround =>
    obtain ⟨hfirst, hrest⟩ := List.forall_mem_cons.mp (haround ▸ h.around)
    cases hb
    cases hfirst with
    | mapping hstart hentries =>
      exact ⟨List.forall_mem_cons.mpr
        ⟨.mapping hstart hentries fun k hk => Option.mem_some.mp hk ▸ hmark, hrest⟩, h.done⟩
  · cases hb
    exact within_place (.scalar hmark) h

theorem within_step {event : Yaml.Event × Mark} (hmark : P event.2) (h : b.Within P)
    (hb : b.step event = .ok b') :
    b'.Within P := by
  obtain ⟨event, mark⟩ := event
  unfold step at hb
  dsimp only at hb
  split at hb
  · exact within_scalar hmark h hb
  next anchor tag =>
    cases hcheck : b.checkStart mark anchor tag true with
    | error fault => exact nomatch hcheck ▸ hb
    | ok =>
      rw [hcheck] at hb
      cases hb
      exact within_opened
        (.mapping hmark (fun _ he => absurd he List.not_mem_nil) fun _ hk => nomatch hk) h
  next anchor tag =>
    cases hcheck : b.checkStart mark anchor tag false with
    | error fault => exact nomatch hcheck ▸ hb
    | ok =>
      rw [hcheck] at hb
      cases hb
      exact within_opened (.sequence hmark fun _ he => absurd he List.not_mem_nil) h
  · split at hb
    next start entries key rest haround =>
      obtain ⟨hfirst, hrest⟩ := List.forall_mem_cons.mp (haround ▸ h.around)
      cases hb
      cases hfirst with
      | mapping hstart hentries =>
        refine within_place (.mapping hstart hmark (fun e he => ?_) fun e he => ?_) ⟨hrest, h.done⟩
        · exact (hentries e (List.mem_reverse.mp he)).1
        · exact (hentries e (List.mem_reverse.mp he)).2
    · cases hb
      exact h
  · split at hb
    next start items rest haround =>
      obtain ⟨hfirst, hrest⟩ := List.forall_mem_cons.mp (haround ▸ h.around)
      cases hb
      cases hfirst with
      | sequence hstart hitems =>
        have hread : ∀ item ∈ items.reverse, item.Within P :=
          fun item hitem => hitems item (List.mem_reverse.mp hitem)
        exact within_place (.sequence hstart hmark hread) ⟨hrest, h.done⟩
    · cases hb
      exact h
  · cases hb
    exact h

theorem within_steps {events : List (Yaml.Event × Mark)} :
    ∀ {b b' : Builder}, (∀ e ∈ events, P e.2) → b.Within P →
    events.foldlM step b = .ok b' → b'.Within P := by
  induction events with
  | nil =>
    rintro b _ - h ⟨⟩
    exact h
  | cons e events ih =>
    intro b b' hevents h hb
    obtain ⟨hevent, hevents⟩ := List.forall_mem_cons.mp hevents
    rw [List.foldlM_cons] at hb
    cases hstep : b.step e with
    | error fault => exact nomatch hstep ▸ hb
    | ok b₁ =>
      rw [hstep] at hb
      exact ih hevents (within_step hevent h hstep) hb

end Builder

theorem within_blank (hstart : P {}) : blank.Within P :=
  .mapping hstart hstart (fun _ he => absurd he List.not_mem_nil) fun _ he =>
    absurd he List.not_mem_nil

/-- The marks of a tree are marks of its events, or that of the start. -/
theorem within_ofEvents {events : List (Yaml.Event × Mark)} {node : Node}
    (hevents : ∀ e ∈ events, P e.2) (hstart : P {})
    (h : ofEvents events = .ok node) : node.Within P := by
  unfold ofEvents at h
  dsimp only at h
  cases hsteps : (events.takeWhile fun e => e.1 != .documentEnd).foldlM Builder.step {} with
  | error fault => exact nomatch hsteps ▸ h
  | ok b =>
    rw [hsteps] at h
    cases h
    have hempty : Builder.Within P {} :=
      ⟨fun _ hp => absurd hp List.not_mem_nil, fun _ hd => nomatch hd⟩
    have hb :=
      Builder.within_steps
        (fun e he => hevents e ((List.takeWhile_sublist _).subset he)) hempty hsteps
    cases hdone : b.done with
    | none => exact within_blank hstart
    | some node => exact hb.done node hdone

theorem within_ofText {text : List Char} {node : Node}
    (hevents : ∀ e ∈ (OneTwo.events text).events, P e.2) (hstart : P {})
    (h : ofText text = .ok node) : node.Within P := by
  have hof : ∀ {x : Except NodeFault Node}, x = ofEvents (OneTwo.events text).events →
      x.mapError DocumentFault.node = .ok node → node.Within P := by
    rintro (_ | node') hx hok
    · exact nomatch hok
    · cases hok
      exact within_ofEvents hevents hstart hx.symm
  unfold ofText at h
  dsimp only at h
  split at h
  · split at h
    · exact hof rfl h
    · exact nomatch h
  · exact hof rfl h

/-! ### Events of a node -/

theorem mem_entryEvents {o : Offset} {event : Event} {entries : List (Scalar × Node)} :
    event ∈ entryEvents o entries → ∃ e ∈ entries, event = e.1.event o ∨ event ∈ e.2.events o := by
  induction entries with
  | nil => exact fun h => absurd h List.not_mem_nil
  | cons e entries ih =>
    intro h
    rw [entryEvents, List.mem_cons, List.mem_append] at h
    rcases h with h | h | h
    · exact ⟨e, List.mem_cons_self, .inl h⟩
    · exact ⟨e, List.mem_cons_self, .inr h⟩
    · obtain ⟨e', he', h⟩ := ih h
      exact ⟨e', List.mem_cons_of_mem _ he', h⟩

theorem mem_itemEvents {o : Offset} {event : Event} {items : List Node} :
    event ∈ itemEvents o items → ∃ item ∈ items, event ∈ item.events o := by
  induction items with
  | nil => exact fun h => absurd h List.not_mem_nil
  | cons item items ih =>
    intro h
    rw [itemEvents, List.mem_append] at h
    rcases h with h | h
    · exact ⟨item, List.mem_cons_self, h⟩
    · obtain ⟨item', hitem', h⟩ := ih h
      exact ⟨item', List.mem_cons_of_mem _ hitem', h⟩

theorem Within.events {o : Offset} {node : Node} (h : node.Within P) :
    ∀ event ∈ node.events o, ∃ mark, P mark ∧ event.location.start = o.position mark := by
  induction h with
  | @scalar s hstart =>
    intro event hevent
    rw [Node.events, List.mem_singleton] at hevent
    exact ⟨s.start, hstart, hevent ▸ rfl⟩
  | @mapping start stop entries hstart hstop hkeys _ ih =>
    intro event hevent
    rw [Node.events, List.mem_cons, List.mem_append, List.mem_singleton] at hevent
    rcases hevent with rfl | hevent | rfl
    · exact ⟨start, hstart, rfl⟩
    · obtain ⟨e, he, rfl | hevent⟩ := mem_entryEvents hevent
      · exact ⟨e.1.start, hkeys e he, rfl⟩
      · exact ih e he event hevent
    · exact ⟨stop, hstop, rfl⟩
  | @sequence start stop items hstart hstop _ ih =>
    intro event hevent
    rw [Node.events, List.mem_cons, List.mem_append, List.mem_singleton] at hevent
    rcases hevent with rfl | hevent | rfl
    · exact ⟨start, hstart, rfl⟩
    · obtain ⟨item, hitem, hevent⟩ := mem_itemEvents hevent
      exact ih item hitem event hevent
    · exact ⟨stop, hstop, rfl⟩

end Node

/-- Each event of a document starts at a mark of its tree, or where the document does. -/
theorem Document.start_of_events {d : Document} {file : FileId} {events : List Event}
    (hmarks : ∀ e ∈ (OneTwo.events d.text).events, P e.2) (hstart : P {})
    (h : d.events file = .ok events) :
    ∀ event ∈ events, ∃ mark,
    P mark ∧ event.location.start = Offset.position ⟨file, d.firstLine⟩ mark := by
  unfold Document.events at h
  cases hnode : Node.ofText d.text with
  | error fault => exact nomatch hnode ▸ h
  | ok node =>
    rw [hnode] at h
    cases h
    have hbody := (Node.within_ofText hmarks hstart hnode).events (o := ⟨file, d.firstLine⟩)
    intro event hevent
    rw [List.mem_cons, List.mem_append, List.mem_singleton] at hevent
    rcases hevent with rfl | hevent | rfl
    · exact ⟨{}, hstart, rfl⟩
    · exact hbody event hevent
    · cases hlast : (node.events ⟨file, d.firstLine⟩).getLast? with
      | none => exact ⟨{}, hstart, rfl⟩
      | some last => exact hbody last (List.mem_of_getLast? hlast)

end EntityModel.Source
