import Mathlib.Data.List.MinMax
import Mathlib.Tactic.Common

/-!
# Sliding windows

A limiter admits a ticket after a look back at the tickets that it can still count, and the ticket
is used at some later time, or never.  The tickets stand in slots, one for each request.

## Main definitions

* `Ticket` : when the limiter looked (`order`), how far back (`since`), and when the ticket is used.
* `Ticket.weighs t since` : a look back to `since` has to reckon with `t`.
* `Admitted n l` : each ticket of `l` had at most `n` to reckon with, itself included.
* `Admitted.used_le` : then at most `n` tickets are used in any window of time.
-/

namespace Window

/-- A ticket that a limiter has admitted. -/
structure Ticket where
  /-- The place of the limiter's look among all looks. -/
  order : ℕ
  /-- How far back the limiter looked. -/
  since : ℕ
  /-- When the ticket is used. -/
  time : Option ℕ

/-- A look back to `since` has to reckon with the ticket: it is not used yet, or used since. -/
def Ticket.weighs (t : Ticket) (since : ℕ) : Bool := t.time.all (since ≤ ·)

/-- The ticket is used in the window of length `span` from `x`. -/
def Ticket.usedIn (t : Ticket) (x span : ℕ) : Bool := t.time.any fun T => x ≤ T && T ≤ x + span

/-- Slots with their tickets. -/
abbrev Ledger := List (Option Ticket)

/-- The tickets admitted up to `order` that a look back to `since` has to reckon with. -/
def earlier (l : Ledger) (order since : ℕ) : ℕ :=
  l.countP (·.any fun u => decide (u.order ≤ order) && u.weighs since)

/-- All tickets that a look back to `since` has to reckon with. -/
def weight (l : Ledger) (since : ℕ) : ℕ := l.countP (·.any (·.weighs since))

/-- Each ticket had at most `n` tickets to reckon with, itself included. -/
def Admitted (n : ℕ) (l : Ledger) : Prop := ∀ t, some t ∈ l → earlier l t.order t.since ≤ n

variable {n i x span : ℕ} {l : Ledger} {t u : Ticket}

/-! ### Counting in slots -/

section

variable {α : Type} {p : α → Bool} {l : List α} {a b : α}

theorem countP_set_of_getElem? (h : l[i]? = some a) :
    (l.set i b).countP p + (if p a then 1 else 0) = l.countP p + (if p b then 1 else 0) := by
  induction l generalizing i with
  | nil => cases h
  | cons c l ih =>
    cases i with
    | zero =>
      obtain rfl : c = a := by simpa using h
      simp only [List.set_cons_zero, List.countP_cons]
      omega
    | succ i =>
      have := ih (i := i) (by simpa using h)
      simp only [List.set_cons_succ, List.countP_cons]
      omega

/-- Replacing an element by one that counts no more. -/
theorem countP_set_le (h : l[i]? = some a) (hp : p b → p a) :
    (l.set i b).countP p ≤ l.countP p := by
  have hset := countP_set_of_getElem? (p := p) (b := b) h
  split_ifs at hset with ha hb
  · omega
  · omega
  · exact absurd (hp ‹_›) ha
  · omega

theorem countP_set_le_succ (h : l[i]? = some a) : (l.set i b).countP p ≤ l.countP p + 1 := by
  have hset := countP_set_of_getElem? (p := p) (b := b) h
  split_ifs at hset <;> omega

theorem countP_le_add {q r : α → Bool} (h : ∀ a ∈ l, p a → q a || r a) :
    l.countP p ≤ l.countP q + l.countP r := by
  induction l with
  | nil => exact Nat.le_refl _
  | cons a l ih =>
    have ih := ih fun b hb => h b (List.mem_cons_of_mem _ hb)
    have ha := h a List.mem_cons_self
    simp only [List.countP_cons]
    cases hp : p a <;> cases hq : q a <;> cases hr : r a <;> simp [hp, hq, hr] at ha ⊢ <;> omega

/-- A count is reached at the latest of the elements that it counts. -/
theorem countP_le_of_latest (c : α → ℕ)
    (h : ∀ a ∈ l, p a → l.countP (fun b => p b && decide (c b ≤ c a)) ≤ n) : l.countP p ≤ n := by
  rcases hmax : (l.filter p).argmax c with _ | a
  · rw [List.argmax_eq_none] at hmax
    rw [List.countP_eq_length_filter, hmax]
    exact Nat.zero_le _
  · obtain ⟨ha, hpa⟩ := List.mem_filter.1 (List.argmax_mem hmax)
    refine Nat.le_trans (List.countP_mono_left fun b hb hpb => ?_) (h a ha hpa)
    have hle : c b ≤ c a := List.le_of_mem_argmax (List.mem_filter.2 ⟨hb, hpb⟩) hmax
    simp [hpb, hle]

end

/-! ### How a ledger moves -/

theorem admitted_nil : Admitted n [] := by
  intro t ht; cases ht

theorem earlier_le_weight (order since : ℕ) : earlier l order since ≤ weight l since := by
  refine List.countP_mono_left fun s _ hs => ?_
  obtain ⟨u, rfl, hu⟩ := (Option.any_eq_true _ _).1 hs
  exact (Bool.and_eq_true_iff.1 hu).2

/-- A new slot has no ticket. -/
theorem Admitted.append_none (h : Admitted n l) : Admitted n (l ++ [none]) := by
  intro t ht
  have ht' : some t ∈ l := by simpa using ht
  simpa [earlier] using h t ht'

/-- What a slot may turn into without a look: it loses its ticket, or keeps it, used now or as it
was. -/
inductive Moves (now : ℕ) : Option Ticket → Option Ticket → Prop
  | keep (s : Option Ticket) : Moves now s s
  | drop (s : Option Ticket) : Moves now s none
  | use (order since : ℕ) : Moves now (some ⟨order, since, none⟩) (some ⟨order, since, some now⟩)

theorem Admitted.move {now : ℕ} {s s' : Option Ticket} (h : Admitted n l) (hs : l[i]? = some s)
    (hm : Moves now s s') : Admitted n (l.set i s') := by
  intro t ht
  -- the ticket was there before, with the same look
  obtain ⟨t₀, ht₀, horder, hsince⟩ :
      ∃ t₀, some t₀ ∈ l ∧ t₀.order = t.order ∧ t₀.since = t.since := by
    rcases List.mem_or_eq_of_mem_set ht with hmem | rfl
    · exact ⟨t, hmem, rfl, rfl⟩
    · cases hm with
      | keep => exact ⟨t, List.mem_of_getElem? hs, rfl, rfl⟩
      | use order since => exact ⟨_, List.mem_of_getElem? hs, rfl, rfl⟩
  rw [← horder, ← hsince]
  refine Nat.le_trans (countP_set_le hs fun hw => ?_) (h t₀ ht₀)
  cases hm with
  | keep => exact hw
  | drop => cases hw
  | use order since =>
    simp only [Option.any_some, Bool.and_eq_true] at hw ⊢
    exact ⟨hw.1, rfl⟩

/-- **Admission**: the limiter looks last of all, and finds fewer than `n` tickets. -/
theorem Admitted.grant (h : Admitted n l) (hs : l[i]? = some none)
    (hlast : ∀ u, some u ∈ l → u.order < t.order) (hn : weight l t.since < n) :
    Admitted n (l.set i (some t)) := by
  intro u hu
  rcases List.mem_or_eq_of_mem_set hu with hmem | heq
  · -- the new ticket comes after every other
    refine Nat.le_trans (countP_set_le hs fun hw => ?_) (h u hmem)
    simp only [Option.any_some, Bool.and_eq_true, decide_eq_true_eq] at hw
    exact absurd hw.1 (Nat.not_le.2 (hlast u hmem))
  · obtain rfl := Option.some.inj heq
    have hset := countP_set_of_getElem? (p := (·.any (·.weighs u.since))) (b := some u) hs
    have hle := earlier_le_weight (l := l.set i (some u)) u.order u.since
    simp only [weight] at hn hle
    split_ifs at hset <;> omega

/-- **The window bound**: a ticket used in a window looked back to before the window, so it reckoned
with every ticket used in the window before it. -/
theorem Admitted.used_le (h : Admitted n l)
    (hspan : ∀ t, some t ∈ l → ∀ T ∈ t.time, t.since ≤ T - span) :
    l.countP (·.any (·.usedIn x span)) ≤ n := by
  refine countP_le_of_latest (fun s => (s.map (·.order)).getD 0) fun s hs hp => ?_
  obtain ⟨t, rfl, ht⟩ := (Option.any_eq_true _ _).1 hp
  refine Nat.le_trans (List.countP_mono_left fun s' _ hs' => ?_) (h t hs)
  obtain ⟨hused, hle⟩ := Bool.and_eq_true_iff.1 hs'
  obtain ⟨u, rfl, hu⟩ := (Option.any_eq_true _ _).1 hused
  obtain ⟨T, hT, hwin⟩ := (Option.any_eq_true _ _).1 ht
  obtain ⟨T', hT', hwin'⟩ := (Option.any_eq_true _ _).1 hu
  have hsince := hspan t hs T hT
  simp only [Bool.and_eq_true, decide_eq_true_eq] at hwin hwin'
  have hback : t.since ≤ T' := by omega
  simp only [Option.any_some, Bool.and_eq_true, Ticket.weighs, hT', Option.all_some,
    decide_eq_true_eq]
  exact ⟨by simpa using hle, hback⟩

end Window
