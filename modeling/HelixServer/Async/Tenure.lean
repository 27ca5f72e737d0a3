import HelixServer.Async.Front
import HelixServer.Async.Protocol

/-!
# Tasks at work on things of their own

Tasks share a world, and some of them are at work on a part of it that is nobody else's: a row they
have made and not finished, a file they have claimed.  A `Tenure` says by what key a task holds such
a part where it stands in its protocol, what the task may rely on there, and what it means that the
part under a key is left alone.

If every call leaves alone the keys in use that its own task does not hold, and a task comes to hold
only keys that are not in use, then in every interleaving no key is held twice, and every task finds
its part as it has left it (`Tenure.held_of_run`).

## Main definitions

* `Tenure M Q K` : keys `K` held by the tasks of `M` in the protocol states `Q`.
* `T.Turn I q w q' w'` : what a call of a task does that moves it from `q` to `q'`.
* `T.Sound P I C` : the calls of the protocol `P` that meet `C` take turns, and keep the invariant
  `I`.
* `T.Held P I s` : no key is held twice, and every task may rely on what its state says.
-/

namespace Async

/-- What the tasks hold, in terms of the states of a protocol. -/
structure Tenure (M : Machine) (Q K : Type) where
  /-- The key that a task holds. -/
  owns : Q → Option K
  /-- The key is in use. -/
  used : M.World → K → Prop
  /-- What a task may rely on. -/
  relies : Q → M.World → Prop
  /-- From one world to another, what is under the key is left alone. -/
  leaves : M.World → M.World → K → Prop

namespace Tenure

variable {M : Machine} {Q K : Type} (T : Tenure M Q K) (P : Protocol M Q) (I : M.World → Prop)
  (C : M.World → M.sig.Op → Prop)

/-- A call that moves a task from `q` to `q'` and the world from `w` to `w'`. -/
structure Turn (q : Q) (w : M.World) (q' : Q) (w' : M.World) : Prop where
  inv : I w'
  relies : T.relies q' w'
  others : ∀ k, T.used w k → T.owns q ≠ some k → T.leaves w w' k
  own : ∀ k, T.owns q' = some k → T.owns q = some k ∨ ¬ T.used w k

/-- The calls of the protocol that meet `C` take turns, and nothing else moves what is held. -/
structure Sound : Prop where
  start : ∀ c, T.owns (P.init c) = none
  idle : ∀ q w, T.owns q = none → T.relies q w
  used : ∀ q w k, T.owns q = some k → T.relies q w → T.used w k
  frame : ∀ q w w' k, T.owns q = some k → T.relies q w → T.leaves w w' k → T.relies q w'
  call : ∀ q o w r w', I w → T.relies q w → P.allowed q o → C w o →
    M.exec o w = (.ok r, w') → T.Turn I q w (P.next q ⟨o, r, w⟩) w'
  reject : ∀ o w e w', I w → M.exec o w = (.error e, w') → I w' ∧ ∀ k, T.leaves w w' k
  env : ∀ x w w', I w → M.env x w = some w' → I w' ∧ ∀ k, T.leaves w w' k

/-- No key is held twice, and every task may rely on what its state says. -/
structure Held (s : Sys M) : Prop where
  inv : I s.world
  relies : ∀ t ∈ s.tasks, T.relies (P.state t) s.world
  apart : ∀ (i j : ℕ) (t t' : Task M) (k : K), s.tasks[i]? = some t →
    s.tasks[j]? = some t' → T.owns (P.state t) = some k → T.owns (P.state t') = some k → i = j

variable {T P I C} {s s' : Sys M}

theorem Sound.relies_of_leaves (h : T.Sound P I C) {q : Q} {w w' : M.World} (hs : T.relies q w)
    (hl : ∀ k, T.leaves w w' k) : T.relies q w' := by
  cases hk : T.owns q with
  | none => exact h.idle q w' hk
  | some k => exact h.frame q w w' k hk hs (hl k)

/-- A step in which every task stays where it is, and may rely on what it did. -/
theorem Held.still (h : T.Held P I s) (hinv : I s'.world)
    (hrelies : ∀ q, T.relies q s.world → T.relies q s'.world)
    (htasks : ∀ (i : ℕ) (t' : Task M), s'.tasks[i]? = some t' →
      ∃ t, s.tasks[i]? = some t ∧ P.state t' = P.state t) :
    T.Held P I s' where
  inv := hinv
  relies := by
    intro t' ht'
    obtain ⟨i, hi⟩ := List.mem_iff_getElem?.1 ht'
    obtain ⟨t, ht, hstate⟩ := htasks i t' hi
    rw [hstate]
    exact hrelies _ (h.relies t (List.mem_of_getElem? ht))
  apart := by
    intro i j t₁ t₂ k h₁ h₂ hk₁ hk₂
    obtain ⟨t₁', h₁', hs₁⟩ := htasks i t₁ h₁
    obtain ⟨t₂', h₂', hs₂⟩ := htasks j t₂ h₂
    rw [hs₁] at hk₁
    rw [hs₂] at hk₂
    exact h.apart i j t₁' t₂' k h₁' h₂' hk₁ hk₂

/-- A rejection leaves every task where it is. -/
theorem state_put_reject {w : M.World} {i j : ℕ} {t t' : Task M} {e : M.Err}
    (ht : s.tasks[i]? = some t) (ht' : (s.put w i (t.reject e)).tasks[j]? = some t') :
    ∃ t₁, s.tasks[j]? = some t₁ ∧ P.state t' = P.state t₁ := by
  rw [Sys.put_getElem? ht] at ht'
  by_cases hij : i = j
  · rw [if_pos hij] at ht'
    obtain rfl := Option.some.inj ht'
    exact ⟨t, hij ▸ ht, rfl⟩
  · rw [if_neg hij] at ht'
    exact ⟨t', ht', rfl⟩

/-- A task that has just been started holds nothing. -/
theorem Held.started (hT : T.Sound P I C) (h : T.Held P I s) (c : M.Call) :
    T.Held P I { s with tasks := s.tasks ++ [.fresh c] } where
  inv := h.inv
  relies := by
    intro t ht
    rcases List.mem_append.1 ht with ht | ht
    · exact h.relies t ht
    · obtain rfl := List.mem_singleton.1 ht
      exact hT.idle _ _ (hT.start c)
  apart := by
    -- a task that holds a key is not the new one
    have hold : ∀ (i : ℕ) (t : Task M) (k : K), (s.tasks ++ [Task.fresh c])[i]? = some t →
        T.owns (P.state t) = some k → s.tasks[i]? = some t := by
      intro i t k ht hk
      rw [List.getElem?_append] at ht
      split_ifs at ht
      · exact ht
      · obtain rfl := List.mem_singleton.1 (List.mem_of_getElem? ht)
        rw [Protocol.state_fresh, hT.start] at hk
        cases hk
    intro i j t₁ t₂ k h₁ h₂ hk₁ hk₂
    exact h.apart i j t₁ t₂ k (hold i t₁ k h₁ hk₁) (hold j t₂ k h₂ hk₂) hk₁ hk₂

/-- A task takes its turn. -/
theorem Held.turn (hT : T.Sound P I C) (h : T.Held P I s) {i : ℕ} {t t' : Task M} {w : M.World}
    (ht : s.tasks[i]? = some t) (hturn : T.Turn I (P.state t) s.world (P.state t') w) :
    T.Held P I (s.put w i t') where
  inv := hturn.inv
  relies := by
    intro t₁ ht₁
    obtain ⟨j, hj⟩ := List.mem_iff_getElem?.1 ht₁
    rw [Sys.put_getElem? ht] at hj
    by_cases hij : i = j
    · rw [if_pos hij] at hj
      obtain rfl := Option.some.inj hj
      exact hturn.relies
    · -- another task holds another key, in use, which is left alone
      rw [if_neg hij] at hj
      have hrelies := h.relies t₁ (List.mem_of_getElem? hj)
      cases hk : T.owns (P.state t₁) with
      | none => exact hT.idle _ _ hk
      | some k =>
        have hused := hT.used _ _ k hk hrelies
        refine hT.frame _ _ _ k hk hrelies (hturn.others k hused fun hown => ?_)
        exact hij (h.apart i j t t₁ k ht hj hown hk)
  apart := by
    -- a key that the task holds now is held by no other
    have hown : ∀ (j : ℕ) (t₁ : Task M) (k : K), s.tasks[j]? = some t₁ →
        T.owns (P.state t₁) = some k → T.owns (P.state t') = some k → i = j := by
      intro j t₁ k hj hk hk'
      rcases hturn.own k hk' with hold | hnew
      · exact h.apart i j t t₁ k ht hj hold hk
      · exact absurd (hT.used _ _ k hk (h.relies t₁ (List.mem_of_getElem? hj))) hnew
    intro j₁ j₂ t₁ t₂ k h₁ h₂ hk₁ hk₂
    rw [Sys.put_getElem? ht] at h₁ h₂
    by_cases hi₁ : i = j₁
    · rw [if_pos hi₁] at h₁
      obtain rfl := Option.some.inj h₁
      by_cases hi₂ : i = j₂
      · exact hi₁.symm.trans hi₂
      · rw [if_neg hi₂] at h₂
        exact absurd (hown j₂ t₂ k h₂ hk₂ hk₁) hi₂
    · rw [if_neg hi₁] at h₁
      by_cases hi₂ : i = j₂
      · rw [if_pos hi₂] at h₂
        obtain rfl := Option.some.inj h₂
        exact absurd (hown j₁ t₁ k h₁ hk₁ hk₂) hi₁
      · rw [if_neg hi₂] at h₂
        exact h.apart j₁ j₂ t₁ t₂ k h₁ h₂ hk₁ hk₂

/-- **Every step keeps what is held.** -/
theorem Held.step (hT : T.Sound P I C) (ho : P.Obeyed s) (h : T.Held P I s) {l : Label M}
    (hl : Stepwise C s l) (hst : Step s l s') : T.Held P I s' := by
  cases hst with
  | start c => exact h.started hT c
  | env he =>
    obtain ⟨hinv, hleaves⟩ := hT.env _ _ _ h.inv he
    exact h.still hinv (fun _ hs => hT.relies_of_leaves hs hleaves) fun _ t ht => ⟨t, ht, rfl⟩
  | call ht hp he =>
    refine h.turn hT ht ?_
    rw [Protocol.state_resume]
    exact hT.call _ _ _ _ _ h.inv (h.relies _ (List.mem_of_getElem? ht)) (ho.allowed ht hp)
      (hl _ (Sys.nextCall_eq ht hp)) he
  | reject ht hp he =>
    obtain ⟨hinv, hleaves⟩ := hT.reject _ _ _ _ h.inv he
    exact h.still hinv (fun _ hs => hT.relies_of_leaves hs hleaves) fun _ _ => state_put_reject ht
  | fail ht hp hf => exact h.still h.inv (fun _ hs => hs) fun _ _ => state_put_reject ht

/-- **What is held along a run.** -/
theorem held_of_run (hT : T.Sound P I C) {s₀ : Sys M}
    (hP : ∀ {s}, Run (Stepwise C) s₀ s → P.Obeyed s) (h₀ : T.Held P I s₀)
    (h : Run (Stepwise C) s₀ s) : T.Held P I s :=
  h.invariant h₀ fun _ _ _ hr ih hl hst => ih.step hT (hP hr) hl hst

theorem held_init {w : M.World} (hw : I w) : T.Held P I (Sys.init w) :=
  ⟨hw, nofun, nofun⟩

end Tenure

end Async
