import Mathlib.Logic.Basic
import Mathlib.Tactic.Common

/-!
# Implementations of an interface and when they can be exchanged

An implementation answers calls from a state of its own.  Two implementations are compared by the
answers they give to the same calls, made in the same order.

## Main definitions

* `Impl C A` : an implementation of the calls `C`, with answers in `A c`.
* `S.answers cs s`, `S.after cs s` : the answers to the calls `cs`, and the state after them.
* `S.Along G cs s` : every call is made in a state in which `G` holds of it.
* `Simulates S T R G` : calls with `G` get the same answers from related states, and keep the states
  related.
* `S.drive next n` : the history of a client that chooses each call from the answers before it.

`Simulates.answers` compares two implementations, `answers_iff_along` characterises when all
implementations of a family agree with one.
-/

namespace Store

/-- An implementation of the calls `C`. -/
structure Impl (C : Type) (A : C → Type) where
  State : Type
  exec : (c : C) → State → A c × State

variable {C : Type} {A : C → Type}

namespace Impl

variable (S : Impl C A)

/-- The answers to a sequence of calls. -/
def answers : List C → S.State → List (Σ c, A c)
  | [], _ => []
  | c :: cs, s => ⟨c, (S.exec c s).1⟩ :: answers cs (S.exec c s).2

/-- The state after a sequence of calls. -/
def after : List C → S.State → S.State
  | [], s => s
  | c :: cs, s => after cs (S.exec c s).2

/-- Every call of the sequence is made in a state in which `G` holds of it. -/
def Along (G : S.State → C → Prop) : List C → S.State → Prop
  | [], _ => True
  | c :: cs, s => G s c ∧ Along G cs (S.exec c s).2

/-- The history of a client that makes up to `n` calls, each chosen from the history before it. -/
def drive (next : List (Σ c, A c) → Option C) : ℕ → List (Σ c, A c) → S.State → List (Σ c, A c)
  | 0, h, _ => h
  | n + 1, h, s =>
    match next h with
    | none => h
    | some c => drive next n (h ++ [⟨c, (S.exec c s).1⟩]) (S.exec c s).2

/-- Every call of the client is made in a state in which `G` holds of it. -/
def DriveAlong (G : S.State → C → Prop) (next : List (Σ c, A c) → Option C) :
    ℕ → List (Σ c, A c) → S.State → Prop
  | 0, _, _ => True
  | n + 1, h, s =>
    match next h with
    | none => True
    | some c => G s c ∧ DriveAlong G next n (h ++ [⟨c, (S.exec c s).1⟩]) (S.exec c s).2

variable {S} {G G' : S.State → C → Prop}

theorem along_of_mem {P : C → Prop} {cs : List C} (hp : ∀ c ∈ cs, P c) (s : S.State) :
    S.Along (fun _ => P) cs s := by
  induction cs generalizing s with
  | nil => trivial
  | cons c cs ih =>
    exact ⟨hp c List.mem_cons_self, ih (fun c' hc' => hp c' (List.mem_cons_of_mem c hc')) _⟩

theorem DriveAlong.mono {next : List (Σ c, A c) → Option C} {n : ℕ} {l : List (Σ c, A c)}
    {s : S.State} (h : S.DriveAlong G next n l s) (hg : ∀ s c, G s c → G' s c) :
    S.DriveAlong G' next n l s := by
  induction n generalizing l s with
  | zero => trivial
  | succ n ih =>
    simp only [DriveAlong] at h ⊢
    cases hn : next l with
    | none => trivial
    | some c =>
      simp only [hn] at h
      exact ⟨hg s c h.1, ih h.2⟩

variable (hg : ∀ s c, G s c)

include hg

theorem along_of_all (cs : List C) (s : S.State) : S.Along G cs s := by
  induction cs generalizing s with
  | nil => trivial
  | cons c cs ih => exact ⟨hg s c, ih _⟩

theorem driveAlong_of_all (next : List (Σ c, A c) → Option C) (n : ℕ) (l : List (Σ c, A c))
    (s : S.State) : S.DriveAlong G next n l s := by
  induction n generalizing l s with
  | zero => trivial
  | succ n ih =>
    simp only [DriveAlong]
    cases next l with
    | none => trivial
    | some c => exact ⟨hg s c, ih _ _⟩

end Impl

/-- Calls with `G` get the same answers from states related by `R`, and keep them related. -/
structure Simulates (S T : Impl C A) (R : S.State → T.State → Prop) (G : S.State → C → Prop) :
    Prop where
  answer : ∀ s t c, R s t → G s c → (T.exec c t).1 = (S.exec c s).1
  next : ∀ s t c, R s t → G s c → R (S.exec c s).2 (T.exec c t).2

variable {S T : Impl C A} {R : S.State → T.State → Prop} {G : S.State → C → Prop} {s : S.State}
  {t : T.State}

/-- **Same answers** to calls with `G`. -/
theorem Simulates.answers (h : Simulates S T R G) (hr : R s t) {cs : List C}
    (hg : S.Along G cs s) : T.answers cs t = S.answers cs s := by
  induction cs generalizing s t with
  | nil => rfl
  | cons c cs ih =>
    obtain ⟨hc, hcs⟩ := hg
    rw [Impl.answers, Impl.answers, h.answer s t c hr hc, ih (h.next s t c hr hc) hcs]

/-- **A client cannot tell the two apart**, as long as it makes calls with `G`. -/
theorem Simulates.drive (h : Simulates S T R G) (hr : R s t) {next : List (Σ c, A c) → Option C}
    {n : ℕ} {l : List (Σ c, A c)} (hg : S.DriveAlong G next n l s) :
    T.drive next n l t = S.drive next n l s := by
  induction n generalizing l s t with
  | zero => rfl
  | succ n ih =>
    simp only [Impl.DriveAlong] at hg
    simp only [Impl.drive]
    cases hn : next l with
    | none => rfl
    | some c =>
      simp only [hn] at hg ⊢
      rw [h.answer s t c hr hg.1]
      exact ih (h.next s t c hr hg.1) hg.2

theorem Simulates.mono {G' : S.State → C → Prop} (h : Simulates S T R G)
    (hg : ∀ s c, G' s c → G s c) : Simulates S T R G' :=
  ⟨fun s t c hr hc => h.answer s t c hr (hg s c hc), fun s t c hr hc => h.next s t c hr (hg s c hc)⟩

theorem Simulates.trans {U : Impl C A} {R' : T.State → U.State → Prop} {G' : T.State → C → Prop}
    (h : Simulates S T R G) (h' : Simulates T U R' G')
    (hg : ∀ s t c, R s t → G s c → G' t c) :
    Simulates S U (fun s u => ∃ t, R s t ∧ R' t u) G where
  answer := by
    rintro s u c ⟨t, hst, htu⟩ hc
    exact (h'.answer t u c htu (hg s t c hst hc)).trans (h.answer s t c hst hc)
  next := by
    rintro s u c ⟨t, hst, htu⟩ hc
    exact ⟨_, h.next s t c hst hc, h'.next t u c htu (hg s t c hst hc)⟩

/-- The calls that a client makes to `S` are the ones it makes to `T`. -/
theorem Simulates.driveAlong (h : Simulates S T R G) (hr : R s t)
    {next : List (Σ c, A c) → Option C}
    {n : ℕ} {l : List (Σ c, A c)} (hg : S.DriveAlong G next n l s) {P : C → Prop}
    (hp : S.DriveAlong (fun _ => P) next n l s) : T.DriveAlong (fun _ => P) next n l t := by
  induction n generalizing l s t with
  | zero => trivial
  | succ n ih =>
    simp only [Impl.DriveAlong] at hg hp ⊢
    cases hn : next l with
    | none => trivial
    | some c =>
      simp only [hn] at hg hp
      refine ⟨hp.1, ?_⟩
      rw [h.answer s t c hr hg.1]
      exact ih (h.next s t c hr hg.1) hg.2 hp.2

section Family

variable {ι : Type} {T : ι → Impl C A} {R : ∀ i, S.State → (T i).State → Prop}

/-- A family of implementations agrees with `S` on exactly the sequences of calls with `G`, if it
simulates `S` under `G` and each call on which all of them agree with `S` has `G`. -/
theorem answers_iff_along (hsim : ∀ i, Simulates S (T i) (R i) G)
    (hg : ∀ s c (t : ∀ i, (T i).State), (∀ i, R i s (t i)) →
      (∀ i, ((T i).exec c (t i)).1 = (S.exec c s).1) → G s c)
    {s : S.State} {t : ∀ i, (T i).State} (hr : ∀ i, R i s (t i)) (cs : List C) :
    (∀ i, (T i).answers cs (t i) = S.answers cs s) ↔ S.Along G cs s := by
  refine ⟨fun h => ?_, fun h i => (hsim i).answers (hr i) h⟩
  induction cs generalizing s t with
  | nil => trivial
  | cons c cs ih =>
    have hstep : ∀ i, ((T i).exec c (t i)).1 = (S.exec c s).1 ∧
        (T i).answers cs ((T i).exec c (t i)).2 = S.answers cs (S.exec c s).2 := by
      intro i
      have hi := h i
      simp only [Impl.answers, List.cons.injEq, Sigma.mk.injEq, heq_eq_eq, true_and] at hi
      exact hi
    have hc : G s c := hg s c t hr fun i => (hstep i).1
    -- the states are related again, since the call has `G`
    exact ⟨hc, ih (fun i => (hsim i).next s (t i) c (hr i) hc) fun i => (hstep i).2⟩

end Family

end Store
