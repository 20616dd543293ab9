/-!
# Readers that go through

The lexer and the grammar read with a state, and may fail.  `After` is what holds behind a reader
that goes through; nothing is said of one that fails.  A reader upholds an invariant of the state if
the invariant holds behind it wherever it held before.
-/

namespace EntityModel.Yaml

/-- If `x` goes through from `s`, `Q` holds of its answer and of the state behind it. -/
def After {σ ε α : Type} (x : StateT σ (Except ε) α) (s : σ) (Q : α → σ → Prop) : Prop :=
  ∀ a s', x s = .ok (a, s') → Q a s'

namespace After

variable {σ ε α β : Type} {x : StateT σ (Except ε) α} {f : α → StateT σ (Except ε) β} {s s' : σ}
  {P : α → σ → Prop} {Q : β → σ → Prop}

theorem pure {a : α} (h : P a s) : After (Pure.pure a : StateT σ (Except ε) α) s P := by
  rintro _ _ ⟨⟩
  exact h

theorem bind (hx : After x s P) (hf : ∀ a s', P a s' → After (f a) s' Q) : After (x >>= f) s Q := by
  intro b t h
  change (x s >>= fun p => f p.1 p.2) = _ at h
  cases hs : x s with
  | error e =>
    rw [hs] at h
    exact nomatch h
  | ok p =>
    rw [hs] at h
    exact hf p.1 p.2 (hx _ _ hs) b t h

theorem mono (hx : After x s P) {P' : α → σ → Prop} (h : ∀ a s', P a s' → P' a s') : After x s P' :=
  fun a s' hs => h a s' (hx a s' hs)

theorem throw {e : ε} : After (MonadExcept.throw e : StateT σ (Except ε) α) s P :=
  fun _ _ h => nomatch h

theorem run {a : α} (hx : x s = .ok (a, s')) (h : P a s') : After x s P := by
  intro b t hs
  obtain ⟨rfl, rfl⟩ := Prod.mk.inj (Except.ok.inj (hx.symm.trans hs))
  exact h

theorem step {a : α} (hx : x s = .ok (a, s')) (hf : After (f a) s' Q) : After (x >>= f) s Q :=
  bind (P := fun b t => b = a ∧ t = s') (run hx ⟨rfl, rfl⟩) fun _ _ ⟨ha, hs⟩ => ha ▸ hs ▸ hf

theorem ite {c : Prop} [Decidable c] {y : StateT σ (Except ε) α} (hx : After x s P)
    (hy : After y s P) :
    After (if c then x else y) s P := by
  split
  · exact hx
  · exact hy

/-- Behind a guard that fails, what it guards against is not so. -/
theorem guard {c : Prop} [Decidable c] {x : StateT σ (Except ε) Unit}
    {f : Unit → StateT σ (Except ε) β} {e : ε}
    (hx : x s = .error e) (hf : ¬ c → After (f ()) s Q) :
    After (if c then x >>= f else f ()) s Q := by
  split
  · intro b t h
    change (x s >>= fun p => f p.1 p.2) = _ at h
    rw [hx] at h
    exact nomatch h
  next hc => exact hf hc

end After

/-- From a state with `I` on, `x` answers with `P` and leaves `I` behind. -/
def Upholds {σ ε α : Type} (I : σ → Prop) (x : StateT σ (Except ε) α) (P : α → Prop) : Prop :=
  ∀ s, I s → After x s fun a s' => I s' ∧ P a

namespace Upholds

variable {σ ε α β : Type} {I : σ → Prop} {x : StateT σ (Except ε) α} {f : α →
  StateT σ (Except ε) β} {P : α → Prop} {Q : β → Prop}

theorem pure {a : α} (h : P a) : Upholds I (Pure.pure a : StateT σ (Except ε) α) P :=
  fun _ hs => .pure ⟨hs, h⟩

theorem get : Upholds (ε := ε) I get I := fun _ hs => .run rfl ⟨hs, hs⟩

theorem bind (hx : Upholds I x P) (hf : ∀ a, P a → Upholds I (f a) Q) : Upholds I (x >>= f) Q :=
  fun s hs => (hx s hs).bind fun a s' h => hf a h.2 s' h.1

theorem seq {x : StateT σ (Except ε) Unit} {f : Unit → StateT σ (Except ε) β}
    (hx : Upholds I x fun _ => True)
    (hf : Upholds I (f ()) Q) : Upholds I (x >>= f) Q := hx.bind fun _ _ => hf

theorem ite {c : Prop} [Decidable c] {y : StateT σ (Except ε) α} (hx : Upholds I x P)
    (hy : Upholds I y P) :
    Upholds I (if c then x else y) P := by
  split
  · exact hx
  · exact hy

theorem option {c : Prop} [Decidable c] {x : StateT σ (Except ε) Unit}
    {f : Unit → StateT σ (Except ε) β}
    (hx : Upholds I x fun _ => True) (hf : Upholds I (f ()) Q) :
    Upholds I (if c then x >>= f else f ()) Q := by
  split
  · exact hx.bind fun _ _ => hf
  · exact hf

theorem passOn {a : α} (hf : ∀ a, Upholds I (f a) Q) : Upholds I (Pure.pure a >>= f) Q :=
  bind (P := fun _ => True) (pure trivial) fun a _ => hf a

end Upholds

end EntityModel.Yaml
