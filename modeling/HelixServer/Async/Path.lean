import HelixServer.Async.Lts

/-!
# Sequential executions

A path is an execution with the list of its labels, one step for each.  An operation that leaves a
state alone can be inserted into a path wherever the path visits that state.  So a set of operations
that have overlapped can be put in a sequential order one by one: an operation goes to the end of
the order, or back to a state that the order visits (`Extends`).

## Main definitions

* `T.Path s ls s'` : `s'` is reached from `s` by steps with the labels `ls`.
* `T.Deterministic` : a label leads from a state to one state.
* `T.Visits s ls s' p` : on the way the path is in a state where `p` holds.
* `T.Extends s₀ ls s l ls' s'` : the path `ls'` to `s'` makes the steps of the path `ls` to `s`, and
  the step `l`.
-/

namespace Async

namespace Lts

variable {S L : Type} {T : Lts S L}

/-- `s'` is reached from `s` by steps with the labels `ls`. -/
inductive Path (T : Lts S L) : S → List L → S → Prop
  | nil (s : S) : Path T s [] s
  | cons {s s' s'' : S} {l : L} {ls : List L} (h : T.step s l s') (h' : Path T s' ls s'') :
      Path T s (l :: ls) s''

/-- A label leads from a state to one state. -/
def Deterministic (T : Lts S L) : Prop := ∀ s l s' s'', T.step s l s' → T.step s l s'' → s' = s''

/-- On the way the path is in a state where `p` holds. -/
def Visits (T : Lts S L) (s : S) (ls : List L) (s' : S) (p : S → Prop) : Prop :=
  ∃ l₁ l₂ s₁, ls = l₁ ++ l₂ ∧ T.Path s l₁ s₁ ∧ T.Path s₁ l₂ s' ∧ p s₁

variable {s₀ s s' s'' : S} {l : L} {ls ls' : List L} {p : S → Prop}

theorem Path.append (h : T.Path s ls s') (h' : T.Path s' ls' s'') : T.Path s (ls ++ ls') s'' := by
  induction h with
  | nil s => exact h'
  | cons hst _ ih => exact .cons hst (ih h')

theorem Path.snoc (h : T.Path s ls s') (hst : T.step s' l s'') : T.Path s (ls ++ [l]) s'' :=
  h.append (.cons hst (.nil s''))

theorem Path.unique (hT : T.Deterministic) (h : T.Path s ls s') (h' : T.Path s ls s'') :
    s' = s'' := by
  induction h with
  | nil s => cases h'; rfl
  | cons hst _ ih =>
    cases h' with
    | cons hst' h' =>
      obtain rfl := hT _ _ _ _ hst hst'
      exact ih h'

/-- A path can be cut. -/
theorem Path.of_append (h : T.Path s (ls ++ ls') s'') :
    ∃ s', T.Path s ls s' ∧ T.Path s' ls' s'' := by
  induction ls generalizing s with
  | nil => exact ⟨s, .nil s, h⟩
  | cons l ls ih =>
    cases h with
    | cons hst h =>
      obtain ⟨s', h₁, h₂⟩ := ih h
      exact ⟨s', .cons hst h₁, h₂⟩

theorem Path.visits_last (h : T.Path s ls s') (hp : p s') : T.Visits s ls s' p :=
  ⟨ls, [], s', (List.append_nil ls).symm, h, .nil s', hp⟩

theorem Visits.snoc (h : T.Visits s ls s' p) (hst : T.step s' l s'') :
    T.Visits s (ls ++ [l]) s'' p := by
  obtain ⟨l₁, l₂, s₁, rfl, h₁, h₂, hs⟩ := h
  exact ⟨l₁, l₂ ++ [l], s₁, List.append_assoc _ _ _, h₁, h₂.snoc hst, hs⟩

/-- The path `ls'` to `s'` makes the steps of the path `ls` to `s`, and the step `l`. -/
structure Extends (T : Lts S L) (s₀ : S) (ls : List L) (s : S) (l : L) (ls' : List L) (s' : S) :
    Prop where
  path : T.Path s₀ ls' s'
  perm : ls'.Perm (l :: ls)
  visits : ∀ p, T.Visits s₀ ls s p → T.Visits s₀ ls' s' p

/-- A step at the end. -/
theorem extends_snoc (h : T.Path s₀ ls s) (hst : T.step s l s') :
    T.Extends s₀ ls s l (ls ++ [l]) s' :=
  ⟨h.snoc hst, List.perm_append_singleton l ls, fun _ hp => hp.snoc hst⟩

/-- **A step that leaves a visited state alone** can be inserted there. -/
theorem extends_insert (hT : T.Deterministic) (h : T.Visits s₀ ls s p)
    (hst : ∀ s₁, p s₁ → T.step s₁ l s₁) : ∃ ls', T.Extends s₀ ls s l ls' s := by
  obtain ⟨l₁, l₂, s₁, rfl, h₁, h₂, hs⟩ := h
  have hl := hst s₁ hs
  refine ⟨l₁ ++ l :: l₂, h₁.append (.cons hl h₂), List.perm_middle, ?_⟩
  rintro p' ⟨k₁, k₂, s₂, heq, hk₁, hk₂, hs₂⟩
  rcases List.append_eq_append_iff.1 heq with ⟨c, rfl, rfl⟩ | ⟨c, rfl, rfl⟩
  · -- the other visit comes after the inserted step
    obtain ⟨s₁', h₁', hc⟩ := hk₁.of_append
    obtain rfl := h₁.unique hT h₁'
    exact ⟨l₁ ++ l :: c, k₂, s₂, by simp, h₁.append (.cons hl hc), hk₂, hs₂⟩
  · -- the other visit comes before it
    obtain ⟨s₂', hk₁', hc⟩ := h₁.of_append
    obtain rfl := hk₁.unique hT hk₁'
    exact ⟨k₁, c ++ l :: l₂, s₂, by simp, hk₁, hc.append (.cons hl h₂), hs₂⟩

end Lts

end Async
