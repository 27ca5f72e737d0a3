import Mathlib.Logic.Relation

/-!
# Labelled transition systems and their runs

## Main definitions

* `Lts S L` : a step relation between states `S`, labelled in `L`.
* `T.Run C s s'` : `s'` is reached from `s` by steps that all meet the condition `C`, a relation
  between the state before a step and the step's label.
* `Run.invariant` : what every such step preserves holds along the run.
* `Run.map` : a run of one system seen as a run of another.
-/

namespace Async

/-- A labelled transition system. -/
structure Lts (S L : Type) where
  /-- The steps. -/
  step : S → L → S → Prop

namespace Lts

variable {S S' L L' : Type} {T : Lts S L} {T' : Lts S' L'}

/-- `s'` is reached from `s` by steps that all meet `C`. -/
def Run (T : Lts S L) (C : S → L → Prop) : S → S → Prop :=
  Relation.ReflTransGen fun s s' => ∃ l, C s l ∧ T.step s l s'

namespace Run

variable {C D : S → L → Prop} {s₀ s s' s'' : S} {l : L}

@[refl] theorem refl (s : S) : T.Run C s s := Relation.ReflTransGen.refl

theorem tail (h : T.Run C s s') (hc : C s' l) (hst : T.step s' l s'') : T.Run C s s'' :=
  Relation.ReflTransGen.tail h ⟨l, hc, hst⟩

theorem single (hc : C s l) (hst : T.step s l s') : T.Run C s s' :=
  Relation.ReflTransGen.single ⟨l, hc, hst⟩

theorem trans (h : T.Run C s s') (h' : T.Run C s' s'') : T.Run C s s'' :=
  Relation.ReflTransGen.trans h h'

theorem mono (hCD : ∀ s l, C s l → D s l) (h : T.Run C s s') : T.Run D s s' :=
  Relation.ReflTransGen.mono (fun _ _ ⟨l, hc, hst⟩ => ⟨l, hCD _ l hc, hst⟩) _ _ h

/-- **Invariance along a run**: what holds at the start and is preserved by every step that
meets the condition holds at the end. -/
theorem invariant {I : S → Prop} (h : T.Run C s₀ s) (h₀ : I s₀)
    (hstep : ∀ s l s', T.Run C s₀ s → I s → C s l → T.step s l s' → I s') : I s := by
  induction h with
  | refl => exact h₀
  | tail hr hst ih =>
    obtain ⟨l, hc, hst⟩ := hst
    exact hstep _ l _ hr ih hc hst

/-- **Simulation along a run**: if `f` takes every step to a run of `T'`, it takes runs to runs. -/
theorem map {D : S' → L' → Prop} {f : S → S'} (h : T.Run C s₀ s)
    (hstep : ∀ s l s', T.Run C s₀ s → C s l → T.step s l s' → T'.Run D (f s) (f s')) :
    T'.Run D (f s₀) (f s) := by
  induction h with
  | refl => exact .refl _
  | tail hr hst ih =>
    obtain ⟨l, hc, hst⟩ := hst
    exact ih.trans (hstep _ l _ hr hc hst)

end Run

end Lts

end Async
