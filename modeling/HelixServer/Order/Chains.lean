import Mathlib.Logic.Relation
import Mathlib.Tactic.Common

/-!
# Chains of successors

A relation in which every element has at most one predecessor is a collection of chains, trees and
cycles.  What an element is reached from decides which: below a source there are no cycles, and an
element is reached from at most one source.

## Main definitions

* `Source R x` : nothing precedes `x`.
* `Last R x` : nothing succeeds `x`.
-/

namespace Chains

open Relation Relator

variable {α : Type} {R : α → α → Prop} {x y z : α}

/-- Nothing precedes `x`. -/
def Source (R : α → α → Prop) (x : α) : Prop := ∀ y, ¬ R y x

/-- Nothing succeeds `x`. -/
def Last (R : α → α → Prop) (x : α) : Prop := ∀ y, ¬ R x y

theorem Source.eq_of_reaches (h : Source R x) (hyx : ReflTransGen R y x) : y = x := by
  rcases ReflTransGen.cases_tail hyx with rfl | ⟨z, -, hz⟩
  · rfl
  · exact absurd hz (h z)

theorem Last.eq_of_reaches (h : Last R x) (hxy : ReflTransGen R x y) : x = y := by
  rcases ReflTransGen.cases_head hxy with rfl | ⟨z, hz, -⟩
  · rfl
  · exact absurd hz (h z)

/-- Two elements that reach a third one are on one chain. -/
theorem total_of_leftUnique (hR : LeftUnique R) (hx : ReflTransGen R x z)
    (hy : ReflTransGen R y z) : ReflTransGen R x y ∨ ReflTransGen R y x := by
  have hR' : RightUnique (Function.swap R) := fun a b c hb hc => hR hb hc
  rcases ReflTransGen.total_of_right_unique hR' (reflTransGen_swap.2 hx)
    (reflTransGen_swap.2 hy) with h | h
  · exact .inr (reflTransGen_swap.1 h)
  · exact .inl (reflTransGen_swap.1 h)

/-- An element is reached from one source at most. -/
theorem source_unique (hR : LeftUnique R) (hx : Source R x) (hy : Source R y)
    (hxz : ReflTransGen R x z) (hyz : ReflTransGen R y z) : x = y := by
  rcases total_of_leftUnique hR hxz hyz with h | h
  · exact hy.eq_of_reaches h
  · exact (hx.eq_of_reaches h).symm

/-- A chain of a partial function ends in one place at most. -/
theorem last_unique (hR : RightUnique R) (hy : Last R y) (hz : Last R z)
    (hxy : ReflTransGen R x y) (hxz : ReflTransGen R x z) : y = z := by
  rcases ReflTransGen.total_of_right_unique hR hxy hxz with h | h
  · exact hy.eq_of_reaches h
  · exact (hz.eq_of_reaches h).symm

/-- **No cycles below a source.** -/
theorem not_transGen_of_source (hR : LeftUnique R) (hx : Source R x) (hxy : ReflTransGen R x y) :
    ¬ TransGen R y y := by
  induction hxy with
  | refl =>
    intro hcycle
    obtain ⟨z, -, hz⟩ := TransGen.tail'_iff.1 hcycle
    exact hx z hz
  | tail hxb hby ih =>
    intro hcycle
    obtain ⟨z, hyz, hz⟩ := TransGen.tail'_iff.1 hcycle
    -- the predecessor on the cycle is the one on the chain
    obtain rfl := hR hz hby
    exact ih (TransGen.head' hby hyz)

end Chains
