import HelixServer.Async.Front
import Mathlib.Data.List.Forall2

/-!
# Crashes and restarts

A server that crashes forgets the requests it serves and whatever of its world is not durable, and
is started again on the rest.  If no call can tell what a crash loses, a run with crashes is a run
without, in which the requests that a crash has met never make another call
(`exists_run_of_crashes`).  So what holds of every interleaving holds of every sequence of lives.

## Main definitions

* `Lives M` : a server in one of its lives, with the tasks of the lives before.
* `CrashStep kept` : a step of the server, or a crash that leaves `kept w` of the world `w`.
* `Unseen kept R` : a world related by `R` serves calls alike, and has besides what crashes lose.
* `Merged R L s` : the lives `L` seen as one.
-/

namespace Async

variable {M : Machine}

/-- A server in one of its lives. -/
structure Lives (M : Machine) where
  /-- The tasks of the lives before. -/
  past : List (Task M)
  sys : Sys M

/-- The first life. -/
def Lives.init (w : M.World) : Lives M := ⟨[], .init w⟩

/-- A step of the server, or a crash. -/
inductive CrashStep (kept : M.World → M.World) : Lives M → Option (Label M) → Lives M → Prop
  | step {past : List (Task M)} {s s' : Sys M} {l : Label M} (h : Step s l s') :
      CrashStep kept ⟨past, s⟩ (some l) ⟨past, s'⟩
  | crash (past : List (Task M)) (s : Sys M) :
      CrashStep kept ⟨past, s⟩ none ⟨past ++ s.tasks, .init (kept s.world)⟩

/-- The transition system of a server that crashes. -/
def crashLts (kept : M.World → M.World) : Lts (Lives M) (Option (Label M)) := ⟨CrashStep kept⟩

/-- A condition on the steps of every life. -/
def InEachLife (C : Discipline M) : Lives M → Option (Label M) → Prop
  | L, some l => C L.sys l
  | _, none => True

/-- Runs with crashes. -/
abbrev CrashRun (kept : M.World → M.World) (C : Discipline M) (L L' : Lives M) : Prop :=
  (crashLts kept).Run (InEachLife C) L L'

/-- A world related by `R` serves calls alike, and has besides what crashes lose. -/
structure Unseen (kept : M.World → M.World) (R : M.World → M.World → Prop) : Prop where
  exec : ∀ {w v o x w'}, R w v → M.exec o w = (x, w') → ∃ v', M.exec o v = (x, v') ∧ R w' v'
  env : ∀ {w v x w'}, R w v → M.env x w = some w' → ∃ y v', M.env y v = some v' ∧ R w' v'
  crash : ∀ {w v}, R w v → R (kept w) v

/-- The same call and answer, in related worlds. -/
inductive EventTwin (R : M.World → M.World → Prop) : Event M → Event M → Prop
  | mk {o : M.sig.Op} {r : M.sig.Res o} {w v : M.World} (h : R w v) :
      EventTwin R ⟨o, r, w⟩ ⟨o, r, v⟩

/-- The same request, at the same place. -/
structure Twin (R : M.World → M.World → Prop) (t t' : Task M) : Prop where
  call : t'.call = t.call
  done : List.Forall₂ (EventTwin R) t.done t'.done
  prog : t'.prog = t.prog

/-- The lives seen as one. -/
structure Merged (R : M.World → M.World → Prop) (L : Lives M) (s : Sys M) : Prop where
  world : R L.sys.world s.world
  tasks : List.Forall₂ (Twin R) (L.past ++ L.sys.tasks) s.tasks

section Lists

variable {α β : Type} {R : α → β → Prop} {as : List α} {bs : List β} {a : α} {b : β} {i : ℕ}

theorem forall₂_getElem? (h : List.Forall₂ R as bs) (ha : as[i]? = some a) :
    ∃ b, bs[i]? = some b ∧ R a b := by
  induction h generalizing i with
  | nil => cases ha
  | cons hr _ ih =>
    cases i with
    | zero => cases ha; exact ⟨_, rfl, hr⟩
    | succ i => exact ih ha

theorem forall₂_set (h : List.Forall₂ R as bs) (hr : R a b) :
    List.Forall₂ R (as.set i a) (bs.set i b) := by
  induction h generalizing i with
  | nil => exact .nil
  | cons hr' h ih =>
    cases i with
    | zero => exact .cons hr h
    | succ i => exact .cons hr' ih

end Lists

variable {kept : M.World → M.World} {R : M.World → M.World → Prop}
  {P : M.World → M.sig.Op → Prop} {L L' : Lives M} {past : List (Task M)} {s s' : Sys M}
  {t t' : Task M}

/-- A run is one life. -/
theorem crashRun_of_run {C : Discipline M} (h : Run C s s') :
    CrashRun kept C ⟨past, s⟩ ⟨past, s'⟩ :=
  Lts.Run.map (f := fun s => (⟨past, s⟩ : Lives M)) h fun _ _ _ _ hl hst =>
    Lts.Run.single (l := some _) hl (.step hst)

/-- A crash, and the next life. -/
theorem crashRun_crash {C : Discipline M} :
    CrashRun kept C ⟨past, s⟩ ⟨past ++ s.tasks, .init (kept s.world)⟩ :=
  Lts.Run.single (l := none) trivial (.crash past s)

/-- A task of the present life has a twin. -/
theorem Merged.twin (h : Merged R ⟨past, s⟩ s') {i : ℕ} (ht : s.tasks[i]? = some t) :
    ∃ t', s'.tasks[past.length + i]? = some t' ∧ Twin R t t' := by
  refine forall₂_getElem? h.tasks ?_
  rw [List.getElem?_append_right (Nat.le_add_right ..), Nat.add_sub_cancel_left]
  exact ht

/-- A task and its twin move on together. -/
theorem Merged.put (h : Merged R ⟨past, s⟩ s') {i : ℕ} {w v : M.World} (hw : R w v)
    (ht : Twin R t t') : Merged R ⟨past, s.put w i t⟩ (s'.put v (past.length + i) t') := by
  refine ⟨hw, ?_⟩
  have hset : past ++ s.tasks.set i t = (past ++ s.tasks).set (past.length + i) t := by
    rw [List.set_append_right _ _ (Nat.le_add_right ..), Nat.add_sub_cancel_left]
  have h₂ := forall₂_set (i := past.length + i) h.tasks ht
  rw [← hset] at h₂
  exact h₂

theorem Twin.reject (h : Twin R t t') (e : M.Err) : Twin R (t.reject e) (t'.reject e) :=
  ⟨h.call, h.done, rfl⟩

theorem Twin.resume (h : Twin R t t') {w v : M.World} (hw : R w v) {o : M.sig.Op} {r : M.sig.Res o}
    {p : Prog M.sig M.Err M.Reply} : Twin R (t.resume w o r p) (t'.resume v o r p) :=
  ⟨h.call, List.rel_append h.done (.cons (.mk hw) .nil), rfl⟩

/-- A step of a life is a step of the merged one. -/
theorem Merged.step (hR : Unseen kept R) (hP : ∀ w v o, R w v → P w o → P v o)
    (h : Merged R ⟨past, s⟩ s') {l : Label M} {s₁ : Sys M} (hl : Stepwise P s l)
    (hst : Step s l s₁) :
    ∃ s₁', Run (Stepwise P) s' s₁' ∧ Merged R ⟨past, s₁⟩ s₁' := by
  -- the twin is about to make the same call
  have hnext : ∀ {i : ℕ} {t : Task M} {o : M.sig.Op} {k}, l = .step i → s.tasks[i]? = some t →
      t.prog = .call o k → ∃ t', s'.tasks[past.length + i]? = some t' ∧ Twin R t t' ∧
        t'.prog = .call o k ∧ Stepwise P s' (.step (past.length + i)) := by
    rintro i t o k rfl ht hp
    obtain ⟨t', ht', htwin⟩ := h.twin ht
    have hp' : t'.prog = .call o k := htwin.prog.trans hp
    refine ⟨t', ht', htwin, hp', fun o' ho' => ?_⟩
    rw [Sys.nextCall_eq ht' hp'] at ho'
    cases ho'
    exact hP _ _ _ h.world (hl o (Sys.nextCall_eq ht hp))
  cases hst with
  | start c =>
    refine ⟨_, .single (l := .start c) trivial (.start s' c), h.world, ?_⟩
    have hnew : Twin R (.fresh c : Task M) (.fresh c) := ⟨rfl, .nil, rfl⟩
    show List.Forall₂ (Twin R) (past ++ (s.tasks ++ [.fresh c])) (s'.tasks ++ [.fresh c])
    rw [← List.append_assoc]
    exact List.rel_append h.tasks (.cons hnew .nil)
  | env he =>
    obtain ⟨y, v, he', hw⟩ := hR.env h.world he
    exact ⟨_, .single (l := .env y) trivial (.env he'), hw, h.tasks⟩
  | call ht hp he =>
    obtain ⟨t', ht', htwin, hp', hl'⟩ := hnext rfl ht hp
    obtain ⟨v, he', hw⟩ := hR.exec h.world he
    exact ⟨_, .single hl' (.call ht' hp' he'), h.put hw (htwin.resume h.world)⟩
  | reject ht hp he =>
    obtain ⟨t', ht', htwin, hp', hl'⟩ := hnext rfl ht hp
    obtain ⟨v, he', hw⟩ := hR.exec h.world he
    exact ⟨_, .single hl' (.reject ht' hp' he'), h.put hw (htwin.reject _)⟩
  | fail ht hp hf =>
    obtain ⟨t', ht', htwin⟩ := h.twin ht
    exact ⟨_, .single (l := .fail _) trivial (.fail ht' (htwin.prog.trans hp) hf),
      h.put h.world (htwin.reject _)⟩

/-- **A run with crashes is a run without.** -/
theorem Merged.run (hR : Unseen kept R) (hP : ∀ w v o, R w v → P w o → P v o)
    (hm : Merged R L s) (h : CrashRun kept (Stepwise P) L L') :
    ∃ s', Run (Stepwise P) s s' ∧ Merged R L' s' := by
  induction h with
  | refl => exact ⟨s, .refl s, hm⟩
  | tail _ hst ih =>
    obtain ⟨l, hl, hst⟩ := hst
    obtain ⟨s₁, hr, hm⟩ := ih
    cases hst with
    | step hst =>
      obtain ⟨s', hr', hm'⟩ := hm.step hR hP hl hst
      exact ⟨s', hr.trans hr', hm'⟩
    | crash past s₂ =>
      -- the tasks of the life that has ended are never scheduled again
      refine ⟨s₁, hr, hR.crash hm.world, ?_⟩
      have htasks : past ++ s₂.tasks ++ (Sys.init (kept s₂.world)).tasks = past ++ s₂.tasks :=
        List.append_nil _
      rw [htasks]
      exact hm.tasks

/-- The same from the first life on. -/
theorem exists_run_of_crashes (hR : Unseen kept R) (hP : ∀ w v o, R w v → P w o → P v o)
    {w₀ v₀ : M.World} (h₀ : R w₀ v₀) (h : CrashRun kept (Stepwise P) (.init w₀) L) :
    ∃ s, Run (Stepwise P) (Sys.init v₀) s ∧ Merged R L s :=
  Merged.run hR hP ⟨h₀, .nil⟩ h

/-- What a task has come to in some life, its twin has come to. -/
theorem Merged.mem (h : Merged R L s) (ht : t ∈ L.past ++ L.sys.tasks) :
    ∃ t' ∈ s.tasks, Twin R t t' := by
  obtain ⟨i, hi⟩ := List.mem_iff_getElem?.1 ht
  obtain ⟨t', ht', htwin⟩ := forall₂_getElem? h.tasks hi
  exact ⟨t', List.mem_of_getElem? ht', htwin⟩

end Async
