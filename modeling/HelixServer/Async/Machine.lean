import HelixServer.Async.Lts
import HelixServer.Async.Prog
import Mathlib.Data.List.Basic
import Mathlib.Order.Basic

/-!
# Machines that interleave programs

A `Machine` serves calls: each call is a program, and the programs share one world.  Every
awaited call of a program is a scheduling point, and is itself atomic.

## Main definitions

* `Machine` : the interface, its effect `exec` on the world, the program of each call, and the
  moves `env` the environment can make by itself (for instance letting time pass).
* `Sys M` : a state, the world and the tasks started so far.  A task keeps its call, the calls it
  has made with their answers (`done`), and the rest of its program.
* `Step s l s'` : one step.  `start c` starts a task; `step i` lets task `i` make its next call;
  `fail i` rejects that call without effect; `env x` is a move of the environment.
* `Run C s s'` : `s'` is reached from `s` by steps that all meet the condition `C` on the state
  before the step and its label.
* `replay` : an executable run.
-/

namespace Async

/-- A server: programs over a shared world. -/
structure Machine where
  /-- The interface of the programs. -/
  sig : Sig
  /-- The errors a program can end with. -/
  Err : Type
  /-- The shared world. -/
  World : Type
  /-- The requests the server takes. -/
  Call : Type
  /-- The replies it gives. -/
  Reply : Type
  /-- The moves of the environment. -/
  Env : Type
  /-- The effect of one awaited call: its answer or the error it rejects with. -/
  exec : (o : sig.Op) → World → Except Err (sig.Res o) × World
  /-- The calls that can reject for reasons outside the model. -/
  fallible : sig.Op → Bool
  /-- What such a call rejects with. -/
  fault : Err
  /-- The program of each request. -/
  prog : Call → Prog sig Err Reply
  /-- The effect of a move of the environment, if it is possible. -/
  env : Env → World → Option World

variable {M : Machine}

/-- A call made by a task, its answer, and the world it was made in. -/
structure Event (M : Machine) where
  op : M.sig.Op
  res : M.sig.Res op
  pre : M.World

/-- A request being served. -/
structure Task (M : Machine) where
  call : M.Call
  /-- The calls made so far, in order. -/
  done : List (Event M) := []
  /-- The rest of the program. -/
  prog : Prog M.sig M.Err M.Reply

namespace Task

/-- The task that starts to serve `c`. -/
def fresh (c : M.Call) : Task M := { call := c, prog := M.prog c }

/-- The task after its call `o`, made in `w`, has answered `r`. -/
def resume (t : Task M) (w : M.World) (o : M.sig.Op) (r : M.sig.Res o)
    (p : Prog M.sig M.Err M.Reply) : Task M :=
  { t with done := t.done ++ [⟨o, r, w⟩], prog := p }

/-- The task after its call has rejected with `e`. -/
def reject (t : Task M) (e : M.Err) : Task M := { t with prog := .raise e }

/-- The task has not ended. -/
def running (t : Task M) : Bool := t.prog.running

@[simp] theorem fresh_call (c : M.Call) : (fresh c).call = c := rfl
@[simp] theorem fresh_done (c : M.Call) : (fresh c : Task M).done = [] := rfl
@[simp] theorem fresh_prog (c : M.Call) : (fresh c).prog = M.prog c := rfl

section

variable (t : Task M) (w : M.World) (o : M.sig.Op) (r : M.sig.Res o)
  (p : Prog M.sig M.Err M.Reply) (e : M.Err)

@[simp] theorem resume_call : (t.resume w o r p).call = t.call := rfl
@[simp] theorem resume_done : (t.resume w o r p).done = t.done ++ [⟨o, r, w⟩] := rfl
@[simp] theorem resume_prog : (t.resume w o r p).prog = p := rfl
@[simp] theorem reject_call : (t.reject e).call = t.call := rfl
@[simp] theorem reject_done : (t.reject e).done = t.done := rfl
@[simp] theorem reject_prog : (t.reject e).prog = .raise e := rfl
@[simp] theorem reject_running : (t.reject e).running = false := rfl

end

theorem running_of_call {t : Task M} {o : M.sig.Op} {k} (h : t.prog = .call o k) :
    t.running = true := by
  simp [running, Prog.running, h]

end Task

/-- A state of the machine: the world and the tasks started so far. -/
structure Sys (M : Machine) where
  world : M.World
  tasks : List (Task M)

/-- What a step does. -/
inductive Label (M : Machine) where
  | start (c : M.Call)
  | step (i : ℕ)
  | fail (i : ℕ)
  | env (x : M.Env)

namespace Sys

/-- No task has been started. -/
def init (w : M.World) : Sys M := ⟨w, []⟩

/-- The state with task `i` replaced. -/
def put (s : Sys M) (w : M.World) (i : ℕ) (t : Task M) : Sys M := ⟨w, s.tasks.set i t⟩

/-- No task is running. -/
def Idle (s : Sys M) : Prop := ∀ t ∈ s.tasks, t.running = false

instance (s : Sys M) : Decidable s.Idle :=
  inferInstanceAs (Decidable (∀ t ∈ s.tasks, t.running = false))

/-- At most one task is running. -/
def Serial (s : Sys M) : Prop :=
  ∀ (i j : ℕ) (t t' : Task M), s.tasks[i]? = some t → s.tasks[j]? = some t' →
    t.running = true → t'.running = true → i = j

/-- The call that task `i` makes next. -/
def nextCall (s : Sys M) (i : ℕ) : Option M.sig.Op := (s.tasks[i]?).bind fun t => t.prog.head

theorem nextCall_eq {s : Sys M} {i : ℕ} {t : Task M} {o : M.sig.Op} {k}
    (ht : s.tasks[i]? = some t) (hp : t.prog = .call o k) : s.nextCall i = some o := by
  simp [nextCall, ht, hp, Prog.head]

/-- The successor of `s` under a label, if the label is possible in `s`. -/
def next (s : Sys M) : Label M → Option (Sys M)
  | .start c => some { s with tasks := s.tasks ++ [.fresh c] }
  | .step i =>
    match s.tasks[i]? with
    | none => none
    | some t =>
      match t.prog with
      | .call o k =>
        match M.exec o s.world with
        | (.ok r, w) => some (s.put w i (t.resume s.world o r (k r)))
        | (.error e, w) => some (s.put w i (t.reject e))
      | _ => none
  | .fail i =>
    match s.tasks[i]? with
    | none => none
    | some t =>
      match t.prog with
      | .call o _ => if M.fallible o then some (s.put s.world i (t.reject M.fault)) else none
      | _ => none
  | .env x => (M.env x s.world).map fun w => { s with world := w }

end Sys

/-- One step of the machine. -/
inductive Step : Sys M → Label M → Sys M → Prop
  | start (s : Sys M) (c : M.Call) : Step s (.start c) { s with tasks := s.tasks ++ [.fresh c] }
  | call {s : Sys M} {i : ℕ} {t : Task M} {o : M.sig.Op}
      {k : M.sig.Res o → Prog M.sig M.Err M.Reply} {r : M.sig.Res o} {w : M.World}
      (ht : s.tasks[i]? = some t) (hp : t.prog = .call o k) (he : M.exec o s.world = (.ok r, w)) :
      Step s (.step i) (s.put w i (t.resume s.world o r (k r)))
  | reject {s : Sys M} {i : ℕ} {t : Task M} {o : M.sig.Op}
      {k : M.sig.Res o → Prog M.sig M.Err M.Reply} {e : M.Err} {w : M.World}
      (ht : s.tasks[i]? = some t) (hp : t.prog = .call o k)
      (he : M.exec o s.world = (.error e, w)) :
      Step s (.step i) (s.put w i (t.reject e))
  | fail {s : Sys M} {i : ℕ} {t : Task M} {o : M.sig.Op}
      {k : M.sig.Res o → Prog M.sig M.Err M.Reply}
      (ht : s.tasks[i]? = some t) (hp : t.prog = .call o k) (hf : M.fallible o = true) :
      Step s (.fail i) (s.put s.world i (t.reject M.fault))
  | env {s : Sys M} {x : M.Env} {w : M.World} (he : M.env x s.world = some w) :
      Step s (.env x) { s with world := w }

theorem step_of_next {s s' : Sys M} {l : Label M} (h : s.next l = some s') : Step s l s' := by
  cases l with
  | start c => cases h; exact .start s c
  | step i =>
    simp only [Sys.next] at h
    split at h
    · cases h
    · rename_i t ht
      split at h
      · rename_i o k hp
        split at h
        · rename_i r w he; cases h; exact .call ht hp he
        · rename_i e w he; cases h; exact .reject ht hp he
      · cases h
  | fail i =>
    simp only [Sys.next] at h
    split at h
    · cases h
    · rename_i t ht
      split at h
      · rename_i o k hp
        split_ifs at h with hf
        cases h
        exact .fail ht hp hf
      · cases h
  | env x =>
    simp only [Sys.next, Option.map_eq_some_iff] at h
    obtain ⟨w, he, rfl⟩ := h
    exact .env he

/-! ### How a step moves the tasks -/

theorem Sys.put_getElem? {s : Sys M} {w : M.World} {i j : ℕ} {t t₀ : Task M}
    (h : s.tasks[i]? = some t₀) :
    (s.put w i t).tasks[j]? = if i = j then some t else s.tasks[j]? := by
  have hi : i < s.tasks.length := (List.getElem?_eq_some_iff.1 h).1
  simp only [Sys.put, List.getElem?_set]
  split_ifs <;> simp_all

@[simp] theorem Sys.put_world {s : Sys M} {w : M.World} {i : ℕ} {t : Task M} :
    (s.put w i t).world = w := rfl

@[simp] theorem Sys.put_length {s : Sys M} {w : M.World} {i : ℕ} {t : Task M} :
    (s.put w i t).tasks.length = s.tasks.length := by simp [Sys.put]

theorem Sys.mem_put {s : Sys M} {w : M.World} {i : ℕ} {t t₁ : Task M}
    (h : t₁ ∈ (s.put w i t).tasks) : t₁ = t ∨ t₁ ∈ s.tasks :=
  (List.mem_or_eq_of_mem_set h).symm

/-- What some task shows is still shown, if it is not lost where a task is replaced. -/
theorem Sys.exists_mem_put {s : Sys M} {w : M.World} {i : ℕ} {t₀ t : Task M} {p : Task M → Prop}
    (h₀ : s.tasks[i]? = some t₀) (hp : p t₀ → p t) (h : ∃ t₁ ∈ s.tasks, p t₁) :
    ∃ t₁ ∈ (s.put w i t).tasks, p t₁ := by
  obtain ⟨t₁, ht₁, hpt⟩ := h
  obtain ⟨j, hj, htj⟩ := List.mem_iff_getElem.1 ht₁
  have hj' : s.tasks[j]? = some t₁ := List.getElem?_eq_some_iff.2 ⟨hj, htj⟩
  by_cases hij : i = j
  · subst hij
    obtain rfl := Option.some.inj (hj'.symm.trans h₀)
    exact ⟨t, List.mem_of_getElem? ((put_getElem? h₀).trans (if_pos rfl)), hp hpt⟩
  · exact ⟨t₁, List.mem_of_getElem? (((put_getElem? h₀).trans (if_neg hij)).trans hj'), hpt⟩

/-- Replacing a running task by a later stage of itself. -/
theorem Sys.put_later {s : Sys M} {w : M.World} {i j : ℕ} {t₀ t₁ t : Task M}
    (h₀ : s.tasks[i]? = some t₀) (hr : t₀.running = true) (hc : t₁.call = t₀.call)
    (hd : t₀.done <+: t₁.done) (ht : s.tasks[j]? = some t) :
    ∃ t', (s.put w i t₁).tasks[j]? = some t' ∧ t'.call = t.call ∧ t.done <+: t'.done ∧
      (t.running = false → t' = t) := by
  rw [Sys.put_getElem? h₀]
  by_cases hij : i = j
  · subst hij
    obtain rfl : t = t₀ := Option.some.inj (ht.symm.trans h₀)
    exact ⟨t₁, if_pos rfl, hc, hd, fun h => absurd (hr.symm.trans h) (by simp)⟩
  · exact ⟨t, by rw [if_neg hij]; exact ht, rfl, List.prefix_rfl, fun _ => rfl⟩

/-- A task keeps its place, its call and the calls it has made; an ended task never changes. -/
theorem Step.getElem? {s s' : Sys M} {l : Label M} (h : Step s l s') {j : ℕ} {t : Task M}
    (ht : s.tasks[j]? = some t) :
    ∃ t', s'.tasks[j]? = some t' ∧ t'.call = t.call ∧ t.done <+: t'.done ∧
      (t.running = false → t' = t) := by
  cases h with
  | start c =>
    have hj : j < s.tasks.length := (List.getElem?_eq_some_iff.1 ht).1
    exact ⟨t, by rw [List.getElem?_append_left hj]; exact ht, rfl, List.prefix_rfl, fun _ => rfl⟩
  | env he => exact ⟨t, ht, rfl, List.prefix_rfl, fun _ => rfl⟩
  | call h₀ hp he =>
    exact Sys.put_later h₀ (Task.running_of_call hp) rfl (List.prefix_append _ _) ht
  | reject h₀ hp he => exact Sys.put_later h₀ (Task.running_of_call hp) rfl List.prefix_rfl ht
  | fail h₀ hp hf => exact Sys.put_later h₀ (Task.running_of_call hp) rfl List.prefix_rfl ht

/-- A task of `s'` has just been started, is as it was, or has just made a step. -/
theorem Step.task {s s' : Sys M} {l : Label M} (h : Step s l s') {j : ℕ} {t' : Task M}
    (ht : s'.tasks[j]? = some t') :
    (∃ c, l = .start c ∧ t' = .fresh c) ∨ s.tasks[j]? = some t' ∨
      ∃ t, s.tasks[j]? = some t ∧ t.running = true ∧ (l = .step j ∨ l = .fail j) := by
  have stepped : ∀ {i : ℕ} {t₀ t₁ : Task M} {w : M.World}, s.tasks[i]? = some t₀ →
      t₀.running = true → (s.put w i t₁).tasks[j]? = some t' →
      s.tasks[j]? = some t' ∨ i = j ∧ s.tasks[j]? = some t₀ ∧ t₀.running = true := by
    intro i t₀ t₁ w h₀ hr hj
    rw [Sys.put_getElem? h₀] at hj
    by_cases hij : i = j
    · subst hij; exact .inr ⟨rfl, h₀, hr⟩
    · rw [if_neg hij] at hj; exact .inl hj
  cases h with
  | start c =>
    rw [List.getElem?_append] at ht
    split_ifs at ht with hj
    · exact .inr (.inl ht)
    · exact .inl ⟨c, rfl, List.mem_singleton.1 (List.mem_of_getElem? ht)⟩
  | env he => exact .inr (.inl ht)
  | call h₀ hp he | reject h₀ hp he =>
    rcases stepped h₀ (Task.running_of_call hp) ht with hs | ⟨rfl, h₀, hr⟩
    · exact .inr (.inl hs)
    · exact .inr (.inr ⟨_, h₀, hr, .inl rfl⟩)
  | fail h₀ hp hf =>
    rcases stepped h₀ (Task.running_of_call hp) ht with hs | ⟨rfl, h₀, hr⟩
    · exact .inr (.inl hs)
    · exact .inr (.inr ⟨_, h₀, hr, .inr rfl⟩)

/-- What some task shows after a step, it has shown before, or shows by the call that it has just
made. -/
theorem Step.exists_task {s s' : Sys M} {l : Label M} (h : Step s l s') {p : Task M → Prop}
    (hfresh : ∀ c, ¬ p (.fresh c)) (hreject : ∀ t e, p (t.reject e) → p t)
    (hp : ∃ t ∈ s'.tasks, p t) :
    (∃ t ∈ s.tasks, p t) ∨ ∃ i t o k r w, l = .step i ∧ s.tasks[i]? = some t ∧ t.prog = .call o k ∧
      M.exec o s.world = (.ok r, w) ∧ p (t.resume s.world o r (k r)) := by
  obtain ⟨t₁, ht₁, hp₁⟩ := hp
  cases h with
  | start c =>
    rcases List.mem_append.1 ht₁ with ht₁ | ht₁
    · exact .inl ⟨t₁, ht₁, hp₁⟩
    · obtain rfl := List.mem_singleton.1 ht₁
      exact absurd hp₁ (hfresh c)
  | env _ => exact .inl ⟨t₁, ht₁, hp₁⟩
  | call ht hprog he =>
    rcases Sys.mem_put ht₁ with rfl | ht₁
    · exact .inr ⟨_, _, _, _, _, _, rfl, ht, hprog, he, hp₁⟩
    · exact .inl ⟨t₁, ht₁, hp₁⟩
  | reject ht _ _ | fail ht _ _ =>
    rcases Sys.mem_put ht₁ with rfl | ht₁
    · exact .inl ⟨_, List.mem_of_getElem? ht, hreject _ _ hp₁⟩
    · exact .inl ⟨t₁, ht₁, hp₁⟩

/-- Tasks that start only when no other is running run one at a time. -/
theorem Step.serial {s s' : Sys M} {l : Label M} (h : Step s l s') (hs : s.Serial)
    (hstart : ∀ c, l = .start c → s.Idle) : s'.Serial := by
  have stepped : ∀ {i : ℕ} {t₀ t₁ : Task M} {w : M.World}, s.tasks[i]? = some t₀ →
      t₀.running = true → (s.put w i t₁).Serial := by
    intro i t₀ t₁ w h₀ hr₀
    have hsame : ∀ {j : ℕ} {t : Task M}, (s.put w i t₁).tasks[j]? = some t → t.running = true →
        i = j := by
      intro j t hj hr
      rw [Sys.put_getElem? h₀] at hj
      by_contra hij
      rw [if_neg hij] at hj
      exact hij (hs i j t₀ t h₀ hj hr₀ hr)
    exact fun j k t t' hj hk hr hr' => (hsame hj hr).symm.trans (hsame hk hr')
  cases h with
  | start c =>
    have hlast : ∀ {j : ℕ} {t : Task M}, (s.tasks ++ [.fresh c])[j]? = some t →
        t.running = true → j = s.tasks.length := by
      intro j t hj hr
      rw [List.getElem?_append] at hj
      split_ifs at hj with hlt
      · rw [hstart c rfl t (List.mem_of_getElem? hj)] at hr
        cases hr
      · have hlen := (List.getElem?_eq_some_iff.1 hj).1
        simp only [List.length_singleton] at hlen
        omega
    exact fun j k t t' hj hk hr hr' => (hlast hj hr).trans (hlast hk hr').symm
  | env he => exact hs
  | call ht hp he | reject ht hp he => exact stepped ht (Task.running_of_call hp)
  | fail ht hp hf => exact stepped ht (Task.running_of_call hp)

/-! ### Runs -/

/-- The machine as a transition system. -/
def lts (M : Machine) : Lts (Sys M) (Label M) := ⟨Step⟩

/-- A condition on the steps of a run: on the state before the step, and the step's label. -/
abbrev Discipline (M : Machine) := Sys M → Label M → Prop

/-- `s'` is reached from `s` by steps that all meet `C`. -/
abbrev Run (C : Discipline M) (s s' : Sys M) : Prop := (lts M).Run C s s'

namespace Run

variable {C D : Discipline M} {s₀ s s' s'' : Sys M} {l : Label M}

/-- A task keeps its place, its call and the calls it has made; an ended task never changes. -/
theorem getElem? (h : Run C s s') {j : ℕ} {t : Task M} (ht : s.tasks[j]? = some t) :
    ∃ t', s'.tasks[j]? = some t' ∧ t'.call = t.call ∧ t.done <+: t'.done ∧
      (t.running = false → t' = t) := by
  induction h with
  | refl => exact ⟨t, ht, rfl, List.prefix_rfl, fun _ => rfl⟩
  | tail _ hst ih =>
    obtain ⟨l, -, hst⟩ := hst
    obtain ⟨t₁, h₁, hc₁, hd₁, he₁⟩ := ih
    obtain ⟨t₂, h₂, hc₂, hd₂, he₂⟩ := hst.getElem? h₁
    refine ⟨t₂, h₂, hc₂.trans hc₁, hd₁.trans hd₂, fun hr => ?_⟩
    obtain rfl := he₁ hr
    exact he₂ hr

/-- What every call and every move of the environment keeps of the world holds along a run. -/
theorem world {I : M.World → Prop} (h : Run C s s') (h₀ : I s.world)
    (hexec : ∀ o w, I w → I (M.exec o w).2) (henv : ∀ x w w', I w → M.env x w = some w' → I w') :
    I s'.world := by
  refine h.invariant (I := fun s => I s.world) h₀ fun s l s' _ ih _ hst => ?_
  cases hst with
  | start c => exact ih
  | env he => exact henv _ _ _ ih he
  | @call i t o k r w _ _ he => exact (congrArg (fun x => I x.2) he).mp (hexec o s.world ih)
  | @reject i t o k e w _ _ he => exact (congrArg (fun x => I x.2) he).mp (hexec o s.world ih)
  | fail _ _ _ => exact ih

end Run

/-! ### Executable runs -/

/-- Take the steps with the given labels, each under the condition `C`. -/
def replay (C : Discipline M) [∀ s l, Decidable (C s l)] : Sys M → List (Label M) → Option (Sys M)
  | s, [] => some s
  | s, l :: ls => if C s l then (s.next l).bind fun s' => replay C s' ls else none

theorem run_of_replay {C : Discipline M} [∀ s l, Decidable (C s l)] {ls : List (Label M)}
    {s s' : Sys M} (h : replay C s ls = some s') : Run C s s' := by
  induction ls generalizing s with
  | nil => cases h; exact .refl _
  | cons l ls ih =>
    simp only [replay] at h
    split_ifs at h with hc
    obtain ⟨s₁, h₁, h₂⟩ := Option.bind_eq_some_iff.1 h
    exact (Lts.Run.single hc (step_of_next h₁)).trans (ih h₂)

/-- A replay that ends in a state where `p` holds is such a run. -/
theorem exists_run_of_replay {C : Discipline M} [∀ s l, Decidable (C s l)] {s : Sys M}
    (ls : List (Label M)) (p : Sys M → Bool) (h : (replay C s ls).any p = true) :
    ∃ s', Run C s s' ∧ p s' = true := by
  obtain ⟨s', h₁, h₂⟩ := (Option.any_eq_true _ _).1 h
  exact ⟨s', run_of_replay h₁, h₂⟩

/-- A step that ends in a state where `p` holds. -/
theorem exists_step_of_next {s : Sys M} {l : Label M} (p : Sys M → Bool)
    (h : (s.next l).any p = true) : ∃ s', Step s l s' ∧ p s' = true := by
  obtain ⟨s', h₁, h₂⟩ := (Option.any_eq_true _ _).1 h
  exact ⟨s', step_of_next h₁, h₂⟩

end Async
