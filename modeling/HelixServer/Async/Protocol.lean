import HelixServer.Async.Machine

/-!
# Protocols

A protocol says what a task may do next in terms of a small state of its own: which calls are
allowed, how the state moves with each answered call, and with which replies and errors a task
may end in each state.  It abstracts the programs of a machine: the state of a task is computed
from the calls the task has made (`Protocol.state`), and once every program obeys the protocol
from its initial state (`Protocol.Sound`), so does the rest of every task of every run that a
rejection from outside the model has not ended (`Protocol.obeys_of_run`).  Invariants over
interleavings are then proved from the protocol states of the tasks, without looking at programs
again.

## Main definitions

* `Protocol M Q` : a protocol with states `Q`.
* `P.Obeys post q p` : from state `q`, the program `p` makes only allowed calls, raises only
  errors allowed where it stands, and answers `a` only in states `q'` with `post q' a`.
* `P.state t` : where task `t` stands.
-/

namespace Async

/-- What the tasks of `M` may do, in terms of a state of each task. -/
structure Protocol (M : Machine) (Q : Type) where
  /-- Where a request starts. -/
  init : M.Call → Q
  /-- How an answered call moves the state. -/
  next : Q → Event M → Q
  /-- The calls allowed in a state. -/
  allowed : Q → M.sig.Op → Prop
  /-- The replies a task may end with in a state. -/
  answers : Q → M.Reply → Prop
  /-- The errors a task may end with in a state. -/
  raises : Q → M.Err → Prop
  /-- The states in which a call may be rejected from outside the model. -/
  fails : Q → Prop

namespace Protocol

variable {M : Machine} {Q : Type} (P : Protocol M Q) {α β : Type}

/-- From the state `q` the program stays within the protocol, and answers only where `post`
holds.  The answer of a call is one the machine can give. -/
def Obeys (post : Q → α → Prop) : Q → Prog M.sig M.Err α → Prop
  | q, .pure a => post q a
  | q, .raise e => P.raises q e
  | q, .call o k => P.allowed q o ∧
      ∀ w r w', M.exec o w = (.ok r, w') → Obeys post (P.next q ⟨o, r, w⟩) (k r)

/-- The state of a task, from the calls it has made. -/
def state (t : Task M) : Q := t.done.foldl P.next (P.init t.call)

/-- Every program obeys the protocol and, under the discipline `C`, so does every rejection. -/
structure Sound (C : Discipline M) : Prop where
  prog : ∀ c, P.Obeys P.answers (P.init c) (M.prog c)
  reject : ∀ (s : Sys M) i t o k e w, C s (.step i) → s.tasks[i]? = some t → t.prog = .call o k →
    P.allowed (P.state t) o → M.exec o s.world = (.error e, w) → P.raises (P.state t) e
  fail : ∀ (s : Sys M) i t o k, C s (.fail i) → s.tasks[i]? = some t → t.prog = .call o k →
    P.allowed (P.state t) o → P.fails (P.state t)

variable {P} {post post' : Q → α → Prop} {q : Q}

@[simp] theorem obeys_pure {a : α} : P.Obeys post q (.pure a) ↔ post q a := Iff.rfl

@[simp] theorem obeys_raise {e : M.Err} : P.Obeys post q (.raise e) ↔ P.raises q e := Iff.rfl

@[simp] theorem obeys_call {o : M.sig.Op} {k : M.sig.Res o → Prog M.sig M.Err α} :
    P.Obeys post q (.call o k) ↔ P.allowed q o ∧
      ∀ w r w', M.exec o w = (.ok r, w') → P.Obeys post (P.next q ⟨o, r, w⟩) (k r) := Iff.rfl

/-- **Sequential composition**: the second part is checked where the first one answers. -/
theorem obeys_bind {post : Q → β → Prop} {p : Prog M.sig M.Err α}
    {f : α → Prog M.sig M.Err β} :
    P.Obeys post q (p.bind f) ↔ P.Obeys (fun q a => P.Obeys post q (f a)) q p := by
  induction p generalizing q with
  | pure a => rfl
  | raise e => rfl
  | call o k ih =>
    simp only [Prog.call_bind, obeys_call]
    exact and_congr_right fun _ => forall_congr' fun w => forall_congr' fun r =>
      forall₂_congr fun w' _ => ih r

theorem Obeys.mono {p : Prog M.sig M.Err α} (h : P.Obeys post q p)
    (hp : ∀ q a, post q a → post' q a) : P.Obeys post' q p := by
  induction p generalizing q with
  | pure a => exact hp q a h
  | raise e => exact h
  | call o k ih => exact ⟨h.1, fun w r w' he => ih r (h.2 w r w' he)⟩

/-- The rule of sequential composition: `post` holds between the two parts. -/
theorem Obeys.bind {post' : Q → β → Prop} {p : Prog M.sig M.Err α} {f : α → Prog M.sig M.Err β}
    (h : P.Obeys post q p) (hf : ∀ q a, post q a → P.Obeys post' q (f a)) :
    P.Obeys post' q (p >>= f) :=
  obeys_bind.2 (h.mono hf)

/-- The rule of one call. -/
theorem obeys_perform {o : M.sig.Op} {post : Q → M.sig.Res o → Prop} (ha : P.allowed q o)
    (hp : ∀ w r w', M.exec o w = (.ok r, w') → post (P.next q ⟨o, r, w⟩) r) :
    P.Obeys post q (.perform o) := ⟨ha, hp⟩

/-- A program that only makes calls which are allowed where `I` holds and keep it. -/
theorem obeys_of_uses_keeping {I : Q → Prop} {N : M.sig.Op → Prop} {R : M.Err → Prop}
    {p : Prog M.sig M.Err α} (hI : I q) (hp : p.Uses N R)
    (hN : ∀ q o, I q → N o → P.allowed q o ∧ ∀ r w, I (P.next q ⟨o, r, w⟩))
    (hR : ∀ q e, I q → R e → P.raises q e) (ha : ∀ q a, I q → post q a) : P.Obeys post q p := by
  induction p generalizing q with
  | pure a => exact ha q a hI
  | raise e => exact hR q e hI hp
  | call o k ih =>
    exact ⟨(hN q o hI hp.1).1, fun w r w' _ => ih r ((hN q o hI hp.1).2 r w) (hp.2 r)⟩

/-- A program that only makes calls which are allowed in `q` and leave it alone. -/
theorem obeys_of_uses {N : M.sig.Op → Prop} {R : M.Err → Prop} {p : Prog M.sig M.Err α}
    (hp : p.Uses N R) (hN : ∀ o, N o → P.allowed q o ∧ ∀ r w, P.next q ⟨o, r, w⟩ = q)
    (hR : ∀ e, R e → P.raises q e) (ha : ∀ a, post q a) : P.Obeys post q p :=
  obeys_of_uses_keeping (I := (· = q)) rfl hp (fun _ o h ho => h ▸ hN o ho)
    (fun _ e h he => h ▸ hR e he) fun _ a h => h ▸ ha a

/-! ### The states of the tasks of a run -/

@[simp] theorem state_fresh (c : M.Call) : P.state (.fresh c) = P.init c := rfl

@[simp] theorem state_resume (t : Task M) (w : M.World) (o : M.sig.Op) (r : M.sig.Res o)
    (p : Prog M.sig M.Err M.Reply) :
    P.state (t.resume w o r p) = P.next (P.state t) ⟨o, r, w⟩ := by
  simp [state]

@[simp] theorem state_reject (t : Task M) (e : M.Err) : P.state (t.reject e) = P.state t := rfl

/-- The task is where its protocol state says it is, or has been ended by a rejection from outside
the model where that may happen. -/
def Follows (P : Protocol M Q) (t : Task M) : Prop :=
  t.prog = .raise M.fault ∧ P.fails (P.state t) ∨ P.Obeys P.answers (P.state t) t.prog

/-- Every task of `s` follows the protocol. -/
def Obeyed (P : Protocol M Q) (s : Sys M) : Prop := ∀ t ∈ s.tasks, P.Follows t

theorem obeyed_put {s : Sys M} (h : P.Obeyed s) {w : M.World} {i : ℕ} {t : Task M}
    (ht : P.Follows t) : P.Obeyed (s.put w i t) := by
  intro t' ht'
  rcases List.mem_or_eq_of_mem_set ht' with hm | rfl
  · exact h t' hm
  · exact ht

theorem Obeyed.obeys {s : Sys M} (h : P.Obeyed s) {i : ℕ} {t : Task M}
    (ht : s.tasks[i]? = some t) (hp : t.prog ≠ .raise M.fault) :
    P.Obeys P.answers (P.state t) t.prog :=
  (h t (List.mem_of_getElem? ht)).resolve_left fun hf => hp hf.1

theorem Obeyed.call {s : Sys M} (h : P.Obeyed s) {i : ℕ} {t : Task M} {o : M.sig.Op} {k}
    (ht : s.tasks[i]? = some t) (hp : t.prog = .call o k) :
    P.Obeys P.answers (P.state t) (.call o k) := by
  have hob := h.obeys ht (by rw [hp]; intro hc; cases hc)
  rwa [hp] at hob

theorem Sound.step {C : Discipline M} (hP : P.Sound C) {s s' : Sys M} {l : Label M}
    (h : P.Obeyed s) (hc : C s l) (hst : Step s l s') : P.Obeyed s' := by
  cases hst with
  | start c =>
    intro t ht
    rcases List.mem_append.1 ht with ht | ht
    · exact h t ht
    · obtain rfl := List.mem_singleton.1 ht
      exact .inr (hP.prog c)
  | call ht hp he =>
    refine obeyed_put h (.inr ?_)
    rw [state_resume]
    exact (h.call ht hp).2 _ _ _ he
  | @reject i t o k e w ht hp he =>
    have hr : P.raises (P.state t) e := hP.reject s i t o k e w hc ht hp (h.call ht hp).1 he
    exact obeyed_put h (.inr hr)
  | @fail i t o k ht hp hf =>
    have hf' : P.fails (P.state t) := hP.fail s i t o k hc ht hp (h.call ht hp).1
    exact obeyed_put h (.inl ⟨rfl, hf'⟩)
  | env he => exact h

/-- **The protocol holds along every run.** -/
theorem obeys_of_run {C : Discipline M} (hP : P.Sound C) {s₀ s : Sys M} (h₀ : P.Obeyed s₀)
    (h : Run C s₀ s) : P.Obeyed s :=
  h.invariant h₀ fun _ _ _ _ ih hc hst => hP.step ih hc hst

theorem obeyed_init (w : M.World) : P.Obeyed (Sys.init w) := by
  intro t ht; cases ht

/-- The step rejects no call. -/
def Accepts : Discipline M := fun s l =>
  match l with
  | .step i =>
    ∀ t o k e w, s.tasks[i]? = some t → t.prog = .call o k → M.exec o s.world ≠ (.error e, w)
  | .fail _ => False
  | _ => True

/-- Where no call is rejected, programs alone make a protocol sound. -/
theorem sound_accepts (hP : ∀ c, P.Obeys P.answers (P.init c) (M.prog c)) : P.Sound Accepts where
  prog := hP
  reject _ _ t _ _ _ _ hc ht hp _ he := absurd he (hc t _ _ _ _ ht hp)
  fail _ _ _ _ _ hc _ _ _ := hc.elim

/-- In a run, a call about to be made is allowed where its task stands. -/
theorem Obeyed.allowed {s : Sys M} (h : P.Obeyed s) {i : ℕ} {t : Task M} {o : M.sig.Op} {k}
    (ht : s.tasks[i]? = some t) (hp : t.prog = .call o k) : P.allowed (P.state t) o :=
  (h.call ht hp).1

theorem Obeyed.answers {s : Sys M} (h : P.Obeyed s) {i : ℕ} {t : Task M} {a : M.Reply}
    (ht : s.tasks[i]? = some t) (hp : t.prog = .pure a) : P.answers (P.state t) a := by
  have hob := h.obeys ht (by rw [hp]; intro hc; cases hc)
  rwa [hp] at hob

theorem Obeyed.raises {s : Sys M} (h : P.Obeyed s) {i : ℕ} {t : Task M} {e : M.Err}
    (ht : s.tasks[i]? = some t) (hp : t.prog = .raise e) (he : e ≠ M.fault) :
    P.raises (P.state t) e := by
  have hob := h.obeys ht (by rw [hp]; intro hc; exact he (by injection hc))
  rwa [hp] at hob

/-! ### Protocols that say nothing of rejections, or of errors -/

/-- The protocol where any call may be rejected from outside the model. -/
def tolerate (P : Protocol M Q) : Protocol M Q := { P with fails := fun _ => True }

@[simp] theorem tolerate_state (t : Task M) : P.tolerate.state t = P.state t := rfl

theorem Obeys.tolerate {p : Prog M.sig M.Err α} (h : P.Obeys post q p) :
    P.tolerate.Obeys post q p := by
  induction p generalizing q with
  | pure a => exact h
  | raise e => exact h
  | call o k ih => exact ⟨h.1, fun w r w' he => ih r (h.2 w r w' he)⟩

/-- The protocol with any rejection and any error allowed. -/
def relax (P : Protocol M Q) : Protocol M Q :=
  { P with raises := fun _ _ => True, fails := fun _ => True }

@[simp] theorem relax_state (t : Task M) : P.relax.state t = P.state t := rfl

theorem Obeys.relax {p : Prog M.sig M.Err α} (h : P.Obeys post q p) : P.relax.Obeys post q p := by
  induction p generalizing q with
  | pure a => exact h
  | raise e => trivial
  | call o k ih => exact ⟨h.1, fun w r w' he => ih r (h.2 w r w' he)⟩

theorem Obeyed.relax {s : Sys M} (h : P.Obeyed s) : P.relax.Obeyed s :=
  fun t ht => (h t ht).imp (fun hf => ⟨hf.1, trivial⟩) Obeys.relax

/-- Whatever is rejected, the calls and the replies of a run are as the protocol says. -/
theorem relax_obeyed {C : Discipline M} {w : M.World} {s : Sys M}
    (hP : ∀ c, P.Obeys P.answers (P.init c) (M.prog c)) (h : Run C (Sys.init w) s) :
    P.relax.Obeyed s := by
  have hsound : P.relax.Sound C := ⟨fun c => (hP c).relax, fun _ _ _ _ _ _ _ _ _ _ _ _ => trivial,
    fun _ _ _ _ _ _ _ _ _ => trivial⟩
  exact obeys_of_run hsound (obeyed_init w) h

end Protocol

end Async
