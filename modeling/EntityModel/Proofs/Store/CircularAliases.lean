import EntityModel.Proofs.Linking.AliasCycles
import EntityModel.Proofs.Linking.BlockedAliases
import EntityModel.Proofs.Store.Diagnosed

/-!
# Cycles of aliases

Where no class comes back to itself, following the associations and aliases among its properties, an
alias may still be reported as part of a cycle: the rounds over aliases report whatever is blocked
when nothing moves any more, and an alias is also blocked by a property that something else is wrong
with.  That is the only way (`Reachable.circular_of_obstructed`): the class of the alias leads to a
property that is not ready, and that was reported for another reason or has its name from a chain of
properties that is too long.

In the linked store itself, whatever the drafts declare, a chain of aliases meets no property twice,
and so every one comes to an end, at a property that is no alias or at an alias that stayed open.
Where aliases are declared in a circle something has to stay open, and linking reports an error
(`Reachable.chains_end`).
-/

namespace EntityModel

open Relation Linking

/-- No class comes back to itself if each follows classes of a lower rank only. -/
theorem Model.untangled_of_rank {m : Model} (rank : ClassId → Nat)
    (h : ∀ c ∈ m.classes, ∀ p ∈ m.classProperties c.id, ∀ D ∈ p.follows?, rank D < rank c.id)
    (hm : m.Numbered) : m.Untangled := by
  have hstep : ∀ C D, m.Follows C D → rank D < rank C := by
    intro C D hD
    obtain ⟨c, hc, rfl⟩ := List.mem_map.mp (follows_mem_classes hm hD)
    obtain ⟨p, hp, hD⟩ := hD
    exact h c hc p hp D hD
  intro C hcycle
  have hdown : ∀ D, TransGen m.Follows C D → rank D < rank C := by
    intro D hD
    induction hD with
    | single hD => exact hstep _ _ hD
    | tail _ hD ih => exact (hstep _ _ hD).trans ih
  exact absurd (hdown C hcycle) (Nat.lt_irrefl _)

namespace Store

variable {s : Store}

theorem mem_diagnostics_of_isError {d : Diagnostic} (hd : d ∈ (s.draftModel.link s.naming).problems)
    (herror : d.isError = true) : d ∈ s.link.1.diagnostics.all := by
  rw [link_eq]
  refine (Diagnostics.perm_byFile _ _).mem_iff.mpr (List.mem_filter.mpr ⟨problems_subset s hd, ?_⟩)
  rw [Diagnostics.isSuppressed_of_isError herror]
  rfl

/-- What is kept was found in linking the drafts, unless it says that a file did not load. -/
theorem mem_problems_of_diagnostics {d : Diagnostic} (hd : d ∈ s.link.1.diagnostics.all)
    (hk : d.kind ≠ .invalidFile) : d ∈ (s.draftModel.link s.naming).problems := by
  rw [link_eq] at hd
  have hlinked : d ∈ s.failures.map (fun failure => failureProblem failure.1 failure.2)
      ++ (s.draftModel.link s.naming).problems := Diagnostics.mem_of_mem_byFile hd
  refine (List.mem_append.mp hlinked).resolve_left fun hfailed => ?_
  obtain ⟨x, -, rfl⟩ := List.mem_map.mp hfailed
  exact hk rfl

/-- **Where no class comes back to itself, following the associations and aliases among its
properties, an alias is reported as part of a cycle only if its class leads to a property that is
not ready for another reason**: an error of another kind is reported where the property was written,
or its name is derived along more properties than are followed. -/
theorem Reachable.circular_of_obstructed (h : s.Reachable)
    (hu : (linkNames s.draftModel).model.Untangled) :
    ∀ d ∈ s.link.1.diagnostics.all, d.kind = .circularAlias →
      ∃ p ∈ s.link.1.model.properties, isOpenAlias p = true ∧ d.location = p.location ∧
        ∃ C, p.follows? = some C ∧ ∃ E, ReflTransGen (linkNames s.draftModel).model.Follows C E ∧
          ∃ q ∈ s.link.1.model.classProperties E,
            s.draftModel.Obstructed s.link.1.diagnostics.all s.naming s.link.1.model q := by
  intro d hd hk
  have hproblem := mem_problems_of_diagnostics hd (by simp [hk])
  rw [link_model]
  obtain ⟨p, hp, ho, hat, C, hC, E, hE, q, hq, hobstructed⟩ :=
    obstructed_of_circular h.drafted.asLoaded hu hproblem hk
  exact ⟨p, hp, ho, hat, C, hC, E, hE, q, hq, hobstructed.unready,
    hobstructed.cause.imp_left fun hfaulted => hfaulted.mono fun _ => mem_diagnostics_of_isError⟩

/-- A store with an alias of a class with an alias of a class that is not there. -/
def unknownBelow : Store :=
  loadAll {} [("A",
    "module: M\n---\nclass:\n name: B\n comment: c\n properties:\n - alias: {class: Z}\n"
      ++ "---\nclass:\n name: C\n comment: c\n properties:\n - alias: {class: B, property: X}")]

/-- There the alias of the first class is reported as part of a cycle, though there is none, and the
alias of the second is what blocks it. -/
theorem circular_of_obstructed_in_unknownBelow :
    (linkNames unknownBelow.draftModel).model.Untangled ∧
      ∃ d ∈ unknownBelow.link.1.diagnostics.all, d.kind = .circularAlias ∧
        ∃ p ∈ unknownBelow.link.1.model.properties, isOpenAlias p = true ∧ d.location = p.location ∧
          ∃ C, p.follows? = some C ∧ ∃ E,
            ReflTransGen (linkNames unknownBelow.draftModel).model.Follows C E ∧
              ∃ q ∈ unknownBelow.link.1.model.classProperties E, unknownBelow.draftModel.Obstructed
                unknownBelow.link.1.diagnostics.all unknownBelow.naming
                  unknownBelow.link.1.model q := by
  have hreach : unknownBelow.Reachable := reachable_loadAll {} _
  have hrun : (∀ c ∈ (linkNames unknownBelow.draftModel).model.classes,
      ∀ p ∈ (linkNames unknownBelow.draftModel).model.classProperties c.id, ∀ D ∈ p.follows?,
        D.index < c.id.index) ∧
      (unknownBelow.link.1.diagnostics.all.any fun d => d.kind == .circularAlias) = true := by
    have hspelled : unknownBelow = _ :=
      loadAll_eq_foldl (.cons (toList_append_eq String.toList_ofList String.toList_ofList) .nil)
    rw [hspelled]
    decide +kernel
  have hu :=
    Model.untangled_of_rank (·.index) hrun.1 (sound_named {} hreach.drafted.asLoaded).numbered
  obtain ⟨d, hd, hk⟩ := List.any_eq_true.mp hrun.2
  rw [beq_iff_eq] at hk
  exact ⟨hu, d, hd, hk, Reachable.circular_of_obstructed hreach hu d hd hk⟩

/-! ### Chains of aliases -/

theorem alias?_or_open {p : Property} (h : resolvedTo p = none) :
    p.alias? = none ∨ isOpenAlias p = true := by
  cases ha : p.alias? with
  | none => exact Or.inl rfl
  | some a => exact Or.inr (isOpenAlias_iff.mpr ⟨a, mem_alias?_iff.mp ha, by
    simpa [resolvedTo, ha] using h⟩)

/-- **In a linked store a chain of aliases meets no property twice; from every property it can be
followed to one that is no alias or an open one; and where aliases are declared in a circle there is
an error.** -/
theorem Reachable.chains_end (h : s.Reachable) :
    (∀ chain : List PropertyId, chain.IsChain (Points s.link.1.model) → chain.Nodup) ∧
    (∀ p ∈ s.link.1.model.properties, ∃ chain, ∃ q ∈ s.link.1.model.properties,
      Walk s.link.1.model p.id q.id chain ∧ (q.alias? = none ∨ isOpenAlias q = true)) ∧
    ∀ x, Circular s.naming s.draftModel x → 0 < s.link.2.errors := by
  have hm := h.drafted.asLoaded
  have hsound := sound_link s.naming hm
  rw [link_model]
  refine ⟨fun chain => hsound.acyclic.nodup, fun p hp => ?_, fun x hx => ?_⟩
  · obtain ⟨chain, q, hq, hwalk, hend⟩ :=
      hsound.acyclic.exists_end hsound.numbered (fun _ _ => hsound.live_of_points) hp
    exact ⟨chain, q, hq, hwalk, alias?_or_open hend⟩
  · obtain ⟨d, hd, herror⟩ := exists_error_of_cycle hm hx
    rw [Nat.pos_iff_ne_zero]
    intro hnone
    rw [no_errors_of_link hnone d hd] at herror
    exact absurd herror (by simp)

/-- A store with a class whose only property is an alias of itself. -/
def selfAlias : Store :=
  loadAll {} [("A", "module: M\n---\nclass:\n name: A\n comment: c\n properties:\n"
    ++ " - alias:\n    class: A\n    property: X\n   name: X")]

/-- There the alias is declared in a circle, and linking finds an error. -/
theorem chains_end_in_selfAlias :
    Circular selfAlias.naming selfAlias.draftModel (⟨⟨0⟩, 0⟩, "X") ∧
    0 < selfAlias.link.2.errors := by
  have hcircular : Circular selfAlias.naming selfAlias.draftModel (⟨⟨0⟩, 0⟩, "X") := by
    apply TransGen.single
    have hspelled : selfAlias = _ :=
      loadAll_eq_foldl (.cons (toList_append_eq String.toList_ofList String.toList_ofList) .nil)
    rw [hspelled]
    decide +kernel
  have hreach : selfAlias.Reachable := reachable_loadAll {} _
  exact ⟨hcircular, (Reachable.chains_end hreach).2.2 _ hcircular⟩

end Store

end EntityModel
