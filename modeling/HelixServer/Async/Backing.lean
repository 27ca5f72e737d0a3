import HelixServer.Async.Front
import Mathlib.Data.List.Forall2

/-!
# A machine on another world

The programs of a machine can run on another world, which represents the first one: a call there
answers alike and leaves represented what it should, or fails.  A run on the other world is then a
run of the machine, task by task (`Backing.sim_of_run`), so that what is proved of the runs of the
machine holds on every world that represents its own.

## Main definitions

* `Backing M` : another world for the calls of `M`, and `Backing.machine`.
* `Prog.Respects Alike p` : the program goes on alike with answers that are alike.
* `Represents R Alike G` : the world represents that of the machine by `R`, for calls with `G`.
* `Sim` : the simulation of the states.
-/

namespace Async

/-- With answers that are alike the program goes on in the same way. -/
def Prog.Respects {S : Sig} {ε α : Type} (Alike : ∀ o, S.Res o → S.Res o → Prop) :
    Prog S ε α → Prop
  | .pure _ | .raise _ => True
  | .call o k => (∀ r r', Alike o r r' → k r = k r') ∧ ∀ r, (k r).Respects Alike

namespace Prog

variable {S : Sig} {ε α β : Type} {Alike : ∀ o, S.Res o → S.Res o → Prop}

theorem Respects.bind {p : Prog S ε α} {f : α → Prog S ε β} (hp : p.Respects Alike)
    (hf : ∀ a, (f a).Respects Alike) : (p.bind f).Respects Alike := by
  induction p with
  | pure a => exact hf a
  | raise e => trivial
  | call o k ih =>
    exact ⟨fun r r' hr => congrArg (Prog.bind · f) (hp.1 r r' hr), fun r => ih r (hp.2 r)⟩

/-- A program whose calls answer in one way only. -/
theorem Uses.respects {N : S.Op → Prop} {R : ε → Prop} {p : Prog S ε α} (hp : p.Uses N R)
    (hN : ∀ o, N o → ∀ r r', Alike o r r' → r = r') : p.Respects Alike := by
  induction p with
  | pure a => trivial
  | raise e => trivial
  | call o k ih => exact ⟨fun r r' hr => by rw [hN o hp.1 r r' hr], fun r => ih r (hp.2 r)⟩

end Prog

variable {M : Machine}

/-- Another world for the calls of a machine. -/
structure Backing (M : Machine) where
  World : Type
  /-- The effect of a call on it. -/
  exec : (o : M.sig.Op) → World → Except M.Err (M.sig.Res o) × World
  /-- The effect of a move of the environment. -/
  env : M.Env → World → Option World

/-- The machine on the other world. -/
abbrev Backing.machine (B : Backing M) : Machine where
  sig := M.sig
  Err := M.Err
  World := B.World
  Call := M.Call
  Reply := M.Reply
  Env := M.Env
  exec := B.exec
  fallible := M.fallible
  fault := M.fault
  prog := M.prog
  env := B.env

namespace Backing

variable (B : Backing M)

/-- The other world represents that of the machine.  A call that fails there, fails in the machine
too, or is one that the machine may reject. -/
structure Represents (R : B.World → M.World → Prop) (Alike : ∀ o, M.sig.Res o → M.sig.Res o → Prop)
    (G : M.World → M.sig.Op → Prop) : Prop where
  answer : ∀ {v w o r v'}, R v w → G w o → B.exec o v = (.ok r, v') →
    ∃ r' w', Alike o r r' ∧ M.exec o w = (.ok r', w') ∧ R v' w'
  reject : ∀ {v w o e v'}, R v w → G w o → B.exec o v = (.error e, v') →
    (∃ w', M.exec o w = (.error e, w') ∧ R v' w') ∨
      M.fallible o = true ∧ e = M.fault ∧ R v' w
  env : ∀ {v w x v'}, R v w → B.env x v = some v' → ∃ w', M.env x w = some w' ∧ R v' w'

/-- The condition on the worlds that a world represents. -/
def Under (R : B.World → M.World → Prop) (P : M.World → M.sig.Op → Prop) :
    B.World → M.sig.Op → Prop := fun v o => ∀ w, R v w → P w o

/-- The same call, with answers that are alike. -/
inductive EventSim (R : B.World → M.World → Prop) (Alike : ∀ o, M.sig.Res o → M.sig.Res o → Prop) :
    Event B.machine → Event M → Prop
  | mk {o : M.sig.Op} {r r' : M.sig.Res o} {v : B.World} {w : M.World} (halike : Alike o r r')
      (hworld : R v w) : EventSim R Alike ⟨o, r, v⟩ ⟨o, r', w⟩

/-- The two tasks serve the same call, and have come to the same place. -/
structure TaskSim (R : B.World → M.World → Prop) (Alike : ∀ o, M.sig.Res o → M.sig.Res o → Prop)
    (t : Task B.machine) (t' : Task M) : Prop where
  call : t.call = t'.call
  done : List.Forall₂ (B.EventSim R Alike) t.done t'.done
  prog : t.prog = t'.prog
  respects : t'.prog.Respects Alike

/-- The machine has the same tasks, on the world that is represented. -/
structure Sim (R : B.World → M.World → Prop) (Alike : ∀ o, M.sig.Res o → M.sig.Res o → Prop)
    (s : Sys B.machine) (s' : Sys M) : Prop where
  world : R s.world s'.world
  length : s.tasks.length = s'.tasks.length
  task : ∀ {i : ℕ} {t : Task B.machine}, s.tasks[i]? = some t →
    ∃ t', s'.tasks[i]? = some t' ∧ B.TaskSim R Alike t t'

variable {B} {R : B.World → M.World → Prop} {Alike : ∀ o, M.sig.Res o → M.sig.Res o → Prop}
  {G P : M.World → M.sig.Op → Prop} {s s₁ : Sys B.machine} {s' : Sys M} {t t₁ : Task B.machine}
  {t' t₁' : Task M} {v : B.World} {w : M.World}

/-- A task and its counterpart move on together. -/
theorem Sim.put (h : B.Sim R Alike s s') {i : ℕ} (ht : s.tasks[i]? = some t)
    (ht' : s'.tasks[i]? = some t') (hworld : R v w) (htask : B.TaskSim R Alike t₁ t₁') :
    B.Sim R Alike (s.put v i t₁) (s'.put w i t₁') where
  world := hworld
  length := by rw [Sys.put_length, Sys.put_length, h.length]
  task := by
    intro j t₂ hj
    rw [Sys.put_getElem? ht] at hj
    rw [Sys.put_getElem? ht']
    by_cases hij : i = j
    · rw [if_pos hij] at hj ⊢
      cases hj
      exact ⟨t₁', rfl, htask⟩
    · rw [if_neg hij] at hj ⊢
      exact h.task hj

/-- The calls of a task and of its counterpart answer alike. -/
theorem TaskSim.resume (h : B.TaskSim R Alike t t') {o : M.sig.Op}
    {k : M.sig.Res o → Prog M.sig M.Err M.Reply} (hp : t'.prog = .call o k) {r r' : M.sig.Res o}
    (halike : Alike o r r') (hworld : R v w) :
    B.TaskSim R Alike (t.resume v o r (k r)) (t'.resume w o r' (k r')) := by
  obtain ⟨hsame, hrest⟩ : Prog.Respects Alike (.call o k) := hp ▸ h.respects
  refine ⟨h.call, ?_, hsame r r' halike, hrest r'⟩
  exact List.rel_append h.done (.cons (.mk halike hworld) .nil)

theorem TaskSim.reject (h : B.TaskSim R Alike t t') (e : M.Err) :
    B.TaskSim R Alike (t.reject e) (t'.reject e) :=
  ⟨h.call, h.done, rfl, trivial⟩

/-- A step on the other world is a step of the machine. -/
theorem Sim.step (hB : B.Represents R Alike G) (hprog : ∀ c, (M.prog c).Respects Alike)
    (h : B.Sim R Alike s s')
    (hG : ∀ t ∈ s'.tasks, ∀ o k, t.prog = .call o k → P s'.world o → G s'.world o)
    {l : Label B.machine}
    (hl : Stepwise (B.Under R P) s l) (hst : Step s l s₁) :
    ∃ s₁', Run (Stepwise P) s' s₁' ∧ B.Sim R Alike s₁ s₁' := by
  -- what the next call of a task meets in the machine
  have hnext : ∀ {i : ℕ} {t : Task B.machine} {o : M.sig.Op} {k}, l = .step i →
      s.tasks[i]? = some t → t.prog = .call o k → ∃ t', s'.tasks[i]? = some t' ∧
        B.TaskSim R Alike t t' ∧ t'.prog = .call o k ∧ Stepwise P s' (.step i) ∧ G s'.world o := by
    rintro i t o k rfl ht hp
    obtain ⟨t', ht', htask⟩ := h.task ht
    have hp' : t'.prog = .call o k := htask.prog.symm.trans hp
    have hP : P s'.world o := hl o (Sys.nextCall_eq ht hp) s'.world h.world
    refine ⟨t', ht', htask, hp', fun o' ho' => ?_, hG t' (List.mem_of_getElem? ht') o k hp' hP⟩
    rw [Sys.nextCall_eq ht' hp'] at ho'
    cases ho'
    exact hP
  cases hst with
  | start c =>
    refine ⟨_, .single (l := .start c) trivial (.start s' c), h.world, ?_, ?_⟩
    · simp only [List.length_append, List.length_singleton, h.length]
    · intro i t ht
      rw [List.getElem?_append] at ht
      split_ifs at ht with hi
      · obtain ⟨t', ht', htask⟩ := h.task ht
        exact ⟨t', (List.getElem?_append_left (h.length ▸ hi)).trans ht', htask⟩
      · refine ⟨.fresh c, ?_, ?_⟩
        · have hlast := (List.getElem?_eq_some_iff.1 ht).1
          rw [List.length_singleton, Nat.lt_one_iff] at hlast
          rw [List.getElem?_append_right (h.length ▸ Nat.le_of_not_lt hi), ← h.length, hlast]
          rfl
        · obtain rfl := List.mem_singleton.1 (List.mem_of_getElem? ht)
          exact ⟨rfl, .nil, rfl, hprog c⟩
  | @env x v he =>
    obtain ⟨w, henv, hworld⟩ := hB.env h.world he
    exact ⟨{ s' with world := w }, .single (l := .env x) trivial (.env henv), hworld,
      h.length, h.task⟩
  | @call i t o k r v ht hp he =>
    obtain ⟨t', ht', htask, hp', hl', hg⟩ := hnext rfl ht hp
    obtain ⟨r', w, halike, hexec, hworld⟩ := hB.answer h.world hg he
    exact ⟨_, .single hl' (.call ht' hp' hexec),
      h.put ht ht' hworld (htask.resume hp' halike h.world)⟩
  | @reject i t o k e v ht hp he =>
    obtain ⟨t', ht', htask, hp', hl', hg⟩ := hnext rfl ht hp
    rcases hB.reject h.world hg he with ⟨w, hexec, hworld⟩ | ⟨hfallible, rfl, hworld⟩
    · exact ⟨_, .single hl' (.reject ht' hp' hexec), h.put ht ht' hworld (htask.reject e)⟩
    · -- the machine rejects the call without effect
      exact ⟨_, .single (l := .fail i) trivial (.fail ht' hp' hfallible),
        h.put ht ht' hworld (htask.reject M.fault)⟩
  | @fail i t o k ht hp hf =>
    obtain ⟨t', ht', htask⟩ := h.task ht
    exact ⟨_, .single (l := .fail i) trivial (.fail ht' (htask.prog.symm.trans hp) hf),
      h.put ht ht' h.world (htask.reject M.fault)⟩

/-- **A run on the other world is a run of the machine.**  The condition `G` of the representation
has to be met by the calls that the machine makes in its own runs. -/
theorem sim_of_run (hB : B.Represents R Alike G) (hprog : ∀ c, (M.prog c).Respects Alike)
    {v₀ : B.World} {w₀ : M.World}
    (hG : ∀ s', Run (Stepwise P) (Sys.init w₀) s' → ∀ t ∈ s'.tasks, ∀ o k, t.prog = .call o k →
      P s'.world o → G s'.world o) (h₀ : R v₀ w₀)
    (h : Run (Stepwise (B.Under R P)) (Sys.init v₀) s) :
    ∃ s', Run (Stepwise P) (Sys.init w₀) s' ∧ B.Sim R Alike s s' := by
  induction h with
  | refl =>
    refine ⟨Sys.init w₀, .refl _, h₀, rfl, fun ht => ?_⟩
    cases ht
  | tail _ hst ih =>
    obtain ⟨l, hl, hst⟩ := hst
    obtain ⟨s', hr, hsim⟩ := ih
    obtain ⟨s₁', hr', hsim'⟩ := hsim.step hB hprog (hG s' hr) hl hst
    exact ⟨s₁', hr.trans hr', hsim'⟩

end Backing

end Async
