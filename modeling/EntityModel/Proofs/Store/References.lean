import EntityModel.Proofs.Linking.Stages

/-!
# References to properties in a linked store

A reference to a property holds the id that the property had when its name was looked up, while
choices of aliases were still being put in place and lists numbered anew.  In the end all of them
are true: whatever a reference points to belongs to the class that it was looked up on and goes by
the name in the reference (`Reachable.references_hold`), with or without errors.
-/

namespace EntityModel

/-- A reference to a property that the model holds, with the class that it is looked up on: the one
that an association or an alias names, or the class itself. -/
inductive Model.Mentions (m : Model) : Option ClassId → PropertyReference → Prop
  | ofProperty {p : Property} {cls : ClassReference} {r : PropertyReference} : p ∈ m.properties →
      p.kind.lookup? = some (cls, r) → m.Mentions cls.target r
  | ofClass {c : Class} {r : PropertyReference} : c ∈ m.classes → r ∈ c.mentions →
      m.Mentions (some c.id) r

namespace Store

open Linking

variable {s : Store}

/-- **In a linked store every property carries the id of its place, every resolved reference points
to a property of its class that goes by the name in the reference, and what was pointed to after
some round over the aliases stays put in all later ones and to the end.** -/
theorem Reachable.references_hold (h : s.Reachable) :
    ((∀ c ∈ s.link.1.model.classes, Positional (.cls c.id) c.properties) ∧
      (∀ d ∈ s.link.1.model.decorators, Positional (.decorator d.id) d.properties) ∧
      ∀ e ∈ s.link.1.model.endpoints, Positional (.params e.id) e.params) ∧
    (∀ cls r t, s.link.1.model.Mentions cls r → r.target = some t →
      ∃ C, cls = some C ∧ s.link.1.model.GoesBy s.naming C r.text t) ∧
    ∀ rounds later, rounds ≤ later → later ≤ roundLimit s.draftModel →
      ∀ p ∈ (afterRounds s.naming s.draftModel rounds).model.properties, ∀ cls r t,
        p.kind.lookup? = some (cls, r) → r.target = some t →
          StaysPut s.naming (afterRounds s.naming s.draftModel rounds).model
            (afterRounds s.naming s.draftModel later).model t ∧
          StaysPut s.naming (afterRounds s.naming s.draftModel rounds).model s.link.1.model t := by
  have hm := h.drafted.asLoaded
  have hsound := sound_link s.naming hm
  rw [link_model]
  refine ⟨⟨fun c hc => ?_, fun d hd => ?_, fun e he => ?_⟩, fun cls r t hmention ht => ?_, ?_⟩
  · refine hsound.numbered.properties _ _ ?_
    simp only [Model.owned, List.mem_append, List.mem_map]
    exact Or.inl (Or.inl ⟨c, hc, rfl⟩)
  · refine hsound.numbered.properties _ _ ?_
    simp only [Model.owned, List.mem_append, List.mem_map]
    exact Or.inl (Or.inr ⟨d, hd, rfl⟩)
  · refine hsound.numbered.properties _ _ ?_
    simp only [Model.owned, List.mem_append, List.mem_flatMap]
    exact Or.inr ⟨e, he, List.mem_cons_self⟩
  · cases hmention with
    | ofProperty hp hl =>
      obtain ⟨C, hC, -, hname⟩ := hsound.grounded _ hp _ r hl t ht
      exact ⟨C, hC, hname⟩
    | ofClass hc hr => exact ⟨_, rfl, goesBy_of_mentions hm hc hr ht⟩
  · intro rounds later hle hlimit p hp cls r t hl ht
    have hstart := sound_afterRounds s.naming hm rounds
    have hend := sound_afterRounds s.naming hm later
    exact ⟨(keeps_afterRounds hm hle).staysPut hstart hend.numbered hp hl ht,
      (keeps_link hm (hle.trans hlimit)).staysPut hstart hsound.numbered hp hl ht⟩

/-- A store with a class that has an alias of one of its own properties. -/
def ownAlias : Store :=
  loadAll {} [("A", "module: M\n---\nclass:\n name: A\n comment: c\n properties:\n"
    ++ " - alias:\n    class: A\n    property: X\n - name: X\n   comment: c\n   domain: D")]

theorem ownAlias_reachable : ownAlias.Reachable := reachable_loadAll {} _

/-- There the alias points to the second property of the class, which goes by the name in the
alias. -/
theorem references_hold_in_ownAlias :
    ∃ cls r, ownAlias.link.1.model.Mentions cls r ∧ r.target = some ⟨.cls ⟨⟨0⟩, 0⟩, 1⟩ ∧
      ∃ C, cls = some C ∧
      ownAlias.link.1.model.GoesBy ownAlias.naming C r.text ⟨.cls ⟨⟨0⟩, 0⟩, 1⟩ := by
  have hfound : (ownAlias.link.1.model.properties.any fun p =>
      p.kind.lookup?.any fun x => x.2.target == some ⟨.cls ⟨⟨0⟩, 0⟩, 1⟩) = true := by
    have hspelled : ownAlias = _ :=
      loadAll_eq_foldl (.cons (toList_append_eq String.toList_ofList String.toList_ofList) .nil)
    rw [hspelled]
    decide +kernel
  obtain ⟨p, hp, hl⟩ := List.any_eq_true.mp hfound
  obtain ⟨⟨cls, r⟩, hl, ht⟩ := (Option.any_eq_true _ _).mp hl
  rw [beq_iff_eq] at ht
  exact ⟨cls.target, r, .ofProperty hp hl, ht,
    (Reachable.references_hold ownAlias_reachable).2.1 cls.target r _ (.ofProperty hp hl) ht⟩

end Store

end EntityModel
