import HelixServer.Async.Machine

/-!
# Front ends of a machine

A front end takes requests in a form of its own, with a further service at hand.  It decodes a
request, and then answers it at once or lets the machine serve what it has decoded.  Whatever its
requests are, a run of the front end is a run of the machine with tasks that the machine never sees
(`Layering.sim_of_run`), so that what holds along the runs of the machine holds behind its front
end.

## Main definitions

* `Sig.sum`, `Prog.inl`, `Prog.inr` : two interfaces side by side, and programs over one of them.
* `Service` : what a front end may call besides the machine.
* `Front M` : a front end, and `Front.machine`, the machine that it makes of `M`.
* `Plan` : decode with calls of the service, serve, encode.  A `Layering` gives every request of a
  front end its plan.
* `Prog.After p es q` : with the answers `es` to its calls, the program `p` has come to `q`.
* `Stage`, `Sim` : the simulation of the tasks and of the states.
-/

namespace Async

/-- Two interfaces side by side. -/
abbrev Sig.sum (S S' : Sig) : Sig := ⟨S.Op ⊕ S'.Op, Sum.elim S.Res S'.Res⟩

namespace Prog

variable {S S' : Sig} {ε α β : Type}

/-- A program over the first interface. -/
def inl : Prog S ε α → Prog (S.sum S') ε α
  | .pure a => .pure a
  | .raise e => .raise e
  | .call o k => .call (S := S.sum S') (.inl o) fun r => (k r).inl

/-- A program over the second interface. -/
def inr : Prog S' ε α → Prog (S.sum S') ε α
  | .pure a => .pure a
  | .raise e => .raise e
  | .call o k => .call (S := S.sum S') (.inr o) fun r => (k r).inr

@[simp] theorem inl_pure (a : α) :
    (Prog.pure a : Prog S ε α).inl = (.pure a : Prog (S.sum S') ε α) := rfl

@[simp] theorem inl_raise (e : ε) :
    (Prog.raise e : Prog S ε α).inl = (.raise e : Prog (S.sum S') ε α) := rfl

@[simp] theorem inr_pure (a : α) :
    (Prog.pure a : Prog S' ε α).inr = (.pure a : Prog (S.sum S') ε α) := rfl

@[simp] theorem inr_raise (e : ε) :
    (Prog.raise e : Prog S' ε α).inr = (.raise e : Prog (S.sum S') ε α) := rfl

theorem inl_bind (p : Prog S ε α) (f : α → Prog S ε β) :
    ((p.bind f).inl : Prog (S.sum S') ε β) = p.inl.bind fun a => (f a).inl := by
  induction p with
  | pure a => rfl
  | raise e => rfl
  | call o k ih =>
    show Prog.call _ _ = Prog.call _ _
    congr 1
    funext r
    exact ih r

theorem inr_bind (p : Prog S' ε α) (f : α → Prog S' ε β) :
    ((p.bind f).inr : Prog (S.sum S') ε β) = p.inr.bind fun a => (f a).inr := by
  induction p with
  | pure a => rfl
  | raise e => rfl
  | call o k ih =>
    show Prog.call _ _ = Prog.call _ _
    congr 1
    funext r
    exact ih r

/-- With these answers to its calls, the program `p` has come to the rest of it. -/
inductive After (p : Prog S ε α) : List (Sigma S.Res) → Prog S ε α → Prop
  | nil : After p [] p
  | snoc {es : List (Sigma S.Res)} {o : S.Op} {k : S.Res o → Prog S ε α}
      (h : After p es (.call o k)) (r : S.Res o) : After p (es ++ [⟨o, r⟩]) (k r)

/-- A program that makes no calls has not moved. -/
theorem After.eq_of_pure {a : α} {es : List (Sigma S.Res)} {q : Prog S ε α}
    (h : After (.pure a) es q) : es = [] ∧ q = .pure a := by
  induction h with
  | nil => exact ⟨rfl, rfl⟩
  | snoc _ _ ih => cases ih.2

theorem After.eq_of_raise {e : ε} {es : List (Sigma S.Res)} {q : Prog S ε α}
    (h : After (.raise e) es q) : es = [] ∧ q = .raise e := by
  induction h with
  | nil => exact ⟨rfl, rfl⟩
  | snoc _ _ ih => cases ih.2

/-- The first answer, and what comes after it. -/
theorem After.of_call {o : S.Op} {k : S.Res o → Prog S ε α} {es : List (Sigma S.Res)}
    {q : Prog S ε α} (h : After (.call o k) es q) :
    (es = [] ∧ q = .call o k) ∨ ∃ r es', es = ⟨o, r⟩ :: es' ∧ After (k r) es' q := by
  induction h with
  | nil => exact .inl ⟨rfl, rfl⟩
  | @snoc es o' k' h r ih =>
    rcases ih with ⟨rfl, hq⟩ | ⟨r', es', rfl, hafter⟩
    · cases hq
      exact .inr ⟨r, [], rfl, .nil⟩
    · exact .inr ⟨r', es' ++ [⟨o', r⟩], rfl, hafter.snoc r⟩

/-- A first answer before the others. -/
theorem After.cons {o : S.Op} {k : S.Res o → Prog S ε α} {r : S.Res o} {es : List (Sigma S.Res)}
    {q : Prog S ε α} (h : After (k r) es q) : After (.call o k) (⟨o, r⟩ :: es) q := by
  induction h with
  | nil => exact After.nil.snoc r
  | snoc _ r' ih => exact ih.snoc r'

/-- What a program has come to, it has come to inside another one. -/
theorem After.bind {p q : Prog S ε α} {es : List (Sigma S.Res)} (h : After p es q)
    (f : α → Prog S ε β) : After (p.bind f) es (q.bind f) := by
  induction h with
  | nil => exact .nil
  | snoc _ r ih => exact ih.snoc r

/-- A program whose answer is only rewritten has come to where the program has come to. -/
theorem After.of_map {p : Prog S ε α} {g : α → β} {es : List (Sigma S.Res)} {q : Prog S ε β}
    (h : After (p.bind fun a => .pure (g a)) es q) :
    ∃ q', After p es q' ∧ q = q'.bind fun a => .pure (g a) := by
  induction h with
  | nil => exact ⟨p, .nil, rfl⟩
  | snoc _ r ih =>
    obtain ⟨q', hafter, hq⟩ := ih
    cases q' with
    | pure a => cases hq
    | raise e => cases hq
    | call o' k' =>
      cases hq
      exact ⟨k' r, hafter.snoc r, rfl⟩

/-- A program that answers a rewritten answer. -/
theorem After.of_map_pure {p : Prog S ε α} {g : α → β} {es : List (Sigma S.Res)} {b : β}
    (h : After (p.bind fun a => .pure (g a)) es (.pure b)) :
    ∃ a, After p es (.pure a) ∧ b = g a := by
  obtain ⟨q', hafter, hq⟩ := h.of_map
  cases q' with
  | pure a =>
    cases hq
    exact ⟨a, hafter, rfl⟩
  | raise e => cases hq
  | call o k => cases hq

end Prog

/-! ### Front ends -/

/-- What a front end may call besides the machine. -/
structure Service (ε : Type) where
  sig : Sig
  World : Type
  exec : (o : sig.Op) → World → Except ε (sig.Res o) × World

/-- A front end of `M`. -/
structure Front (M : Machine) where
  service : Service M.Err
  /-- The requests it takes. -/
  Request : Type
  /-- The answers it gives. -/
  Answer : Type
  prog : Request → Prog (M.sig.sum service.sig) M.Err Answer

variable {M : Machine}

namespace Front

variable (F : Front M)

/-- The effect of a call of the machine or of the service. -/
def exec : (o : (M.sig.sum F.service.sig).Op) → M.World × F.service.World →
    Except M.Err ((M.sig.sum F.service.sig).Res o) × (M.World × F.service.World)
  | .inl o, w => let x := M.exec o w.1; (x.1, (x.2, w.2))
  | .inr o, w => let x := F.service.exec o w.2; (x.1, (w.1, x.2))

variable {F} in
/-- A call of the machine leaves the service alone. -/
theorem exec_inl {o : M.sig.Op} {w w' : M.World × F.service.World} {x : Except M.Err (M.sig.Res o)}
    (h : F.exec (.inl o) w = (x, w')) : M.exec o w.1 = (x, w'.1) := by
  cases h
  rfl

variable {F} in
/-- A call of the service leaves the machine alone. -/
theorem exec_inr {o : F.service.sig.Op} {w w' : M.World × F.service.World}
    {x : Except M.Err (F.service.sig.Res o)} (h : F.exec (.inr o) w = (x, w')) : w.1 = w'.1 := by
  cases h
  rfl

/-- The machine behind its front end.  A call of the service may be rejected. -/
abbrev machine : Machine where
  sig := M.sig.sum F.service.sig
  Err := M.Err
  World := M.World × F.service.World
  Call := F.Request
  Reply := F.Answer
  Env := M.Env
  exec := F.exec
  fallible := Sum.elim M.fallible fun _ => true
  fault := M.fault
  prog := F.prog
  env := fun x w => (M.env x w.1).map fun w' => (w', w.2)

variable {F}

/-- A call of the machine. -/
def ofMachine : Event F.machine → Option (Event M)
  | ⟨.inl o, r, w⟩ => some ⟨o, r, w.1⟩
  | ⟨.inr _, _, _⟩ => none

/-- A call of the service, with its answer. -/
def ofService : Event F.machine → Option (Sigma F.service.sig.Res)
  | ⟨.inl _, _, _⟩ => none
  | ⟨.inr o, r, _⟩ => some ⟨o, r⟩

/-- The calls of the machine that a task has made. -/
def served (t : Task F.machine) : List (Event M) := t.done.filterMap ofMachine

/-- The calls of the service that a task has made, with their answers. -/
def asked (t : Task F.machine) : List (Sigma F.service.sig.Res) := t.done.filterMap ofService

section Resume

variable {t : Task F.machine} {w : F.machine.World}
  {p : Prog (M.sig.sum F.service.sig) M.Err F.Answer}

@[simp] theorem served_inl {o : M.sig.Op} {r : M.sig.Res o} :
    served (t.resume w (.inl o) r p) = served t ++ [⟨o, r, w.1⟩] := List.filterMap_append

@[simp] theorem asked_inl {o : M.sig.Op} {r : M.sig.Res o} :
    asked (t.resume w (.inl o) r p) = asked t :=
  List.filterMap_append.trans (List.append_nil _)

@[simp] theorem served_inr {o : F.service.sig.Op} {r : F.service.sig.Res o} :
    served (t.resume w (.inr o) r p) = served t :=
  List.filterMap_append.trans (List.append_nil _)

@[simp] theorem asked_inr {o : F.service.sig.Op} {r : F.service.sig.Res o} :
    asked (t.resume w (.inr o) r p) = asked t ++ [⟨o, r⟩] := List.filterMap_append

end Resume

end Front

/-- Decode with calls of a service, serve what is decoded, and encode the reply. -/
structure Plan (M : Machine) (S : Sig) (α : Type) where
  decode : Prog S M.Err (M.Call ⊕ α)
  encode : M.Reply → α

namespace Plan

variable {S : Sig} {α : Type} (p : Plan M S α)

/-- What follows the decoding. -/
def rest : M.Call ⊕ α → Prog (M.sig.sum S) M.Err α
  | .inl c => (M.prog c).inl.bind fun a => .pure (p.encode a)
  | .inr a => .pure a

/-- The program of a plan. -/
def prog : Prog (M.sig.sum S) M.Err α := p.decode.inr.bind p.rest

end Plan

/-- The plans of the requests of a front end. -/
structure Layering (F : Front M) where
  plan : F.Request → Plan M F.service.sig F.Answer
  prog_eq : ∀ r, F.prog r = (plan r).prog

/-- A condition on the calls of a run. -/
def Stepwise (P : M.World → M.sig.Op → Prop) : Discipline M := fun s l =>
  match l with
  | .step i => ∀ o ∈ s.nextCall i, P s.world o
  | _ => True

instance {P : M.World → M.sig.Op → Prop} [∀ w o, Decidable (P w o)] (s : Sys M) (l : Label M) :
    Decidable (Stepwise P s l) :=
  match l with
  | .step i => inferInstanceAs (Decidable (∀ o ∈ s.nextCall i, P s.world o))
  | .start _ | .fail _ | .env _ => .isTrue trivial

/-- The same condition on the calls of the machine behind a front end. -/
def Front.Behind (F : Front M) (P : M.World → M.sig.Op → Prop) :
    F.machine.World → F.machine.sig.Op → Prop
  | w, .inl o => P w.1 o
  | _, .inr _ => True

instance {F : Front M} {P : M.World → M.sig.Op → Prop} [∀ w o, Decidable (P w o)]
    (w : F.machine.World) (o : F.machine.sig.Op) : Decidable (F.Behind P w o) :=
  match o with
  | .inl o => inferInstanceAs (Decidable (P w.1 o))
  | .inr _ => .isTrue trivial

namespace Layering

variable {F : Front M} (L : Layering F)

/-! ### The simulation -/

/-- The task of the front end, and the task of the machine that serves it, if there is one
already. -/
inductive Stage (t : Task F.machine) : Option (Task M) → Prop
  /-- The request is being decoded, has been answered without the machine, or has failed. -/
  | apart {q : Prog F.service.sig M.Err (M.Call ⊕ F.Answer)}
      (hq : (L.plan t.call).decode.After (Front.asked t) q ∨ ∃ e, q = .raise e)
      (hnot : ∀ c, q ≠ .pure (.inl c)) (hserved : Front.served t = [])
      (hp : t.prog = q.inr.bind (L.plan t.call).rest) : Stage t none
  /-- The machine serves what has been decoded. -/
  | serving {t' : Task M}
      (hdecoded : (L.plan t.call).decode.After (Front.asked t) (.pure (.inl t'.call)))
      (hserved : Front.served t = t'.done)
      (hp : t.prog = t'.prog.inl.bind fun a => .pure ((L.plan t.call).encode a)) :
      Stage t (some t')

/-- The machine, in the state `s'`, serves some of the tasks of `s`, each in its place. -/
structure Placed (s : Sys F.machine) (s' : Sys M) (place : ℕ → Option ℕ) : Prop where
  lt : ∀ i k, place i = some k → i < s.tasks.length ∧ k < s'.tasks.length
  inj : ∀ i j k, place i = some k → place j = some k → i = j
  onto : ∀ k, k < s'.tasks.length → ∃ i, place i = some k
  stage : ∀ i t, s.tasks[i]? = some t → L.Stage t ((place i).bind fun k => s'.tasks[k]?)

/-- The machine is in the state `s'` when the front end is in the state `s`. -/
def Sim (s : Sys F.machine) (s' : Sys M) : Prop :=
  s'.world = s.world.1 ∧ ∃ place, L.Placed s s' place

variable {L} {s : Sys F.machine} {s' : Sys M} {place : ℕ → Option ℕ} {i k : ℕ}
  {t t₁ : Task F.machine} {t' t₁' : Task M} {w : F.machine.World} {w' : M.World}

theorem Placed.get (h : L.Placed s s' place) (hk : place i = some k) :
    ∃ t t', s.tasks[i]? = some t ∧ s'.tasks[k]? = some t' ∧ L.Stage t (some t') := by
  obtain ⟨hi, hk'⟩ := h.lt i k hk
  have hstage := h.stage i _ (List.getElem?_eq_getElem hi)
  rw [hk, Option.bind_some, List.getElem?_eq_getElem hk'] at hstage
  exact ⟨_, _, List.getElem?_eq_getElem hi, List.getElem?_eq_getElem hk', hstage⟩

/-- A task that the machine serves, and its task of the machine, move on together. -/
theorem Placed.both (h : L.Placed s s' place) (ht : s.tasks[i]? = some t) (hk : place i = some k)
    (ht' : s'.tasks[k]? = some t') (hstage : L.Stage t₁ (some t₁')) :
    L.Placed (s.put w i t₁) (s'.put w' k t₁') place where
  lt j l hj := by
    rw [Sys.put_length, Sys.put_length]
    exact h.lt j l hj
  inj := h.inj
  onto l hl := h.onto l (by rwa [Sys.put_length] at hl)
  stage j t₂ hj := by
    rw [Sys.put_getElem? ht] at hj
    by_cases hij : i = j
    · subst hij
      rw [if_pos rfl] at hj
      cases hj
      rw [hk, Option.bind_some, Sys.put_getElem? ht', if_pos rfl]
      exact hstage
    · rw [if_neg hij] at hj
      have hold := h.stage j t₂ hj
      cases hl : place j with
      | none => rwa [hl] at hold
      | some l =>
        -- another task is served elsewhere
        have hkl : k ≠ l := fun hkl => hij (h.inj i j k hk (hkl ▸ hl))
        rw [hl, Option.bind_some] at hold
        rw [Option.bind_some, Sys.put_getElem? ht', if_neg hkl]
        exact hold

/-- A task that the machine does not serve moves on alone. -/
theorem Placed.alone (h : L.Placed s s' place) (ht : s.tasks[i]? = some t) (hk : place i = none)
    (hstage : L.Stage t₁ none) : L.Placed (s.put w i t₁) s' place where
  lt j l hj := by
    rw [Sys.put_length]
    exact h.lt j l hj
  inj := h.inj
  onto := h.onto
  stage j t₂ hj := by
    rw [Sys.put_getElem? ht] at hj
    by_cases hij : i = j
    · subst hij
      rw [if_pos rfl] at hj
      cases hj
      rw [hk]
      exact hstage
    · rw [if_neg hij] at hj
      exact h.stage j t₂ hj

/-- The place of one more task of the machine. -/
def placed (place : ℕ → Option ℕ) (i k : ℕ) : ℕ → Option ℕ :=
  fun j => if j = i then some k else place j

/-- The machine starts to serve the task in place `i`: the one that was there, or a new one. -/
theorem Placed.serve (h : L.Placed s s' place) {tasks : List (Task F.machine)} (hk : place i = none)
    (hlen : s.tasks.length ≤ tasks.length) (hi : tasks[i]? = some t₁)
    (hrest : ∀ j, j ≠ i → tasks[j]? = s.tasks[j]?) (hstage : L.Stage t₁ (some t')) :
    L.Placed ⟨w, tasks⟩ { s' with tasks := s'.tasks ++ [t'] } (placed place i s'.tasks.length) where
  lt j l hj := by
    rw [List.length_append, List.length_singleton]
    unfold placed at hj
    split_ifs at hj with hji
    · cases hj
      exact ⟨hji ▸ (List.getElem?_eq_some_iff.1 hi).1, Nat.lt_succ_self _⟩
    · obtain ⟨hj, hl⟩ := h.lt j l hj
      exact ⟨Nat.lt_of_lt_of_le hj hlen, Nat.lt_succ_of_lt hl⟩
  inj j j' l hj hj' := by
    unfold placed at hj hj'
    -- the new place is one that no task had
    have hnew : ∀ j, place j ≠ some s'.tasks.length := fun j hj =>
      Nat.lt_irrefl _ (h.lt j _ hj).2
    split_ifs at hj hj' with hji hji' hji'
    · rw [hji, hji']
    · cases hj
      exact absurd hj' (hnew j')
    · cases hj'
      exact absurd hj (hnew j)
    · exact h.inj j j' l hj hj'
  onto l hl := by
    rw [List.length_append, List.length_singleton] at hl
    by_cases hlast : l = s'.tasks.length
    · exact ⟨i, by rw [placed, if_pos rfl, hlast]⟩
    · obtain ⟨j, hj⟩ := h.onto l (by omega)
      refine ⟨j, ?_⟩
      rw [placed, if_neg, hj]
      rintro rfl
      rw [hk] at hj
      cases hj
  stage j t₂ hj := by
    by_cases hji : j = i
    · subst hji
      obtain rfl : t₁ = t₂ := Option.some.inj (hi.symm.trans hj)
      rw [placed, if_pos rfl, Option.bind_some, List.getElem?_append_right (Nat.le_refl _),
        Nat.sub_self]
      exact hstage
    · rw [placed, if_neg hji]
      have hold := h.stage j t₂ ((hrest j hji).symm.trans hj)
      cases hl : place j with
      | none => rwa [hl] at hold
      | some l =>
        rw [hl, Option.bind_some] at hold
        rw [Option.bind_some, List.getElem?_append_left (h.lt j l hl).2]
        exact hold

/-- A new task that the machine does not serve yet. -/
theorem Placed.start (h : L.Placed s s' place) (hstage : L.Stage t₁ none) :
    L.Placed ⟨w, s.tasks ++ [t₁]⟩ s' place where
  lt j l hj := by
    rw [List.length_append, List.length_singleton]
    obtain ⟨hj, hl⟩ := h.lt j l hj
    exact ⟨Nat.lt_succ_of_lt hj, hl⟩
  inj := h.inj
  onto := h.onto
  stage j t₂ hj := by
    rw [List.getElem?_append] at hj
    split_ifs at hj with hlt
    · exact h.stage j t₂ hj
    · obtain rfl := List.mem_singleton.1 (List.mem_of_getElem? hj)
      cases hl : place j with
      | none => exact hstage
      | some l => exact absurd (h.lt j l hl).1 hlt

/-- What is decoded, decides whether the machine serves the task. -/
theorem stage_or_serves {q : Prog F.service.sig M.Err (M.Call ⊕ F.Answer)}
    (hq : (L.plan t.call).decode.After (Front.asked t) q) (hserved : Front.served t = [])
    (hp : t.prog = q.inr.bind (L.plan t.call).rest) :
    L.Stage t none ∨ ∃ c, L.Stage t (some (.fresh c)) := by
  by_cases hc : ∃ c, q = .pure (.inl c)
  · obtain ⟨c, rfl⟩ := hc
    exact .inr ⟨c, .serving hq hserved hp⟩
  · exact .inl (.apart (.inl hq) (fun c hq => hc ⟨c, hq⟩) hserved hp)

/-- A task whose next call is one of the machine is served by it. -/
theorem Stage.call_inl {o : M.sig.Op} {K} (h : L.Stage t ((place i).bind fun k => s'.tasks[k]?))
    (hp : t.prog = .call (S := M.sig.sum F.service.sig) (.inl o) K) :
    ∃ k t' k', place i = some k ∧ s'.tasks[k]? = some t' ∧ L.Stage t (some t') ∧
      t'.prog = .call o k' ∧
      ∀ r, K r = (k' r).inl.bind fun a => .pure ((L.plan t.call).encode a) := by
  cases hx : (place i).bind fun k => s'.tasks[k]? with
  | none =>
    rw [hx] at h
    cases h with
    | @apart q hq hnot hserved hp' =>
      -- the decoding calls the service only
      rw [hp'] at hp
      cases q with
      | pure x =>
        cases x with
        | inl c => exact absurd rfl (hnot c)
        | inr a => cases hp
      | raise e => cases hp
      | call o' k => cases hp
  | some t' =>
    obtain ⟨k, hk, ht'⟩ := Option.bind_eq_some_iff.1 hx
    rw [hx] at h
    have hstage := h
    cases h with
    | serving hdecoded hserved hp' =>
      rw [hp'] at hp
      cases hprog : t'.prog with
      | pure a => rw [hprog] at hp; cases hp
      | raise e => rw [hprog] at hp; cases hp
      | call o' k' =>
        rw [hprog] at hp
        cases hp
        exact ⟨k, t', k', hk, ht', hstage, hprog, fun _ => rfl⟩

/-- A task whose next call is one of the service is still being decoded. -/
theorem Stage.call_inr {o : F.service.sig.Op} {K} {x : Option (Task M)} (h : L.Stage t x)
    (hp : t.prog = .call (S := M.sig.sum F.service.sig) (.inr o) K) :
    x = none ∧ ∃ k, (L.plan t.call).decode.After (Front.asked t) (.call o k) ∧
      Front.served t = [] ∧ ∀ r, K r = (k r).inr.bind (L.plan t.call).rest := by
  cases h with
  | @apart q hq hnot hserved hp' =>
    rw [hp'] at hp
    cases q with
    | pure x =>
      cases x with
      | inl c => exact absurd rfl (hnot c)
      | inr a => cases hp
    | raise e => cases hp
    | call o' k =>
      cases hp
      exact ⟨rfl, k, hq.resolve_right fun ⟨e, he⟩ => (by cases he), hserved, fun _ => rfl⟩
  | @serving t' hdecoded hserved hp' =>
    rw [hp'] at hp
    cases hprog : t'.prog <;> rw [hprog] at hp <;> cases hp

/-- A call of the machine is made by the task that serves. -/
theorem Stage.serve {o : M.sig.Op} {r : M.sig.Res o}
    {p : Prog (M.sig.sum F.service.sig) M.Err F.Answer}
    {p' : Prog M.sig M.Err M.Reply} (h : L.Stage t (some t')) (hw : w' = w.1)
    (hp : p = p'.inl.bind fun a => .pure ((L.plan t.call).encode a)) :
    L.Stage (t.resume w (.inl o) r p) (some (t'.resume w' o r p')) := by
  cases h with
  | serving hdecoded hserved _ =>
    refine .serving ?_ ?_ hp
    · rw [Front.asked_inl]
      exact hdecoded
    · rw [Front.served_inl, hserved, hw]
      rfl

/-- With an answer of the service the decoding goes on. -/
theorem Stage.ask {o : F.service.sig.Op} {r : F.service.sig.Res o}
    {k : F.service.sig.Res o → Prog F.service.sig M.Err (M.Call ⊕ F.Answer)}
    {p : Prog (M.sig.sum F.service.sig) M.Err F.Answer}
    (hafter : (L.plan t.call).decode.After (Front.asked t) (.call o k))
    (hserved : Front.served t = []) (hp : p = (k r).inr.bind (L.plan t.call).rest) :
    L.Stage (t.resume w (.inr o) r p) none ∨
      ∃ c, L.Stage (t.resume w (.inr o) r p) (some (.fresh c)) := by
  refine stage_or_serves (q := k r) ?_ ?_ hp
  · rw [Front.asked_inr]
    exact hafter.snoc r
  · rw [Front.served_inr]
    exact hserved

/-- Where a call rejects, the machine rejects with it. -/
theorem Stage.reject {e : M.Err} (h : L.Stage t (some t')) :
    L.Stage (t.reject e) (some (t'.reject e)) := by
  cases h with
  | serving hdecoded hserved hp => exact .serving hdecoded hserved rfl

theorem Stage.reject_apart {e : M.Err} (h : L.Stage t none) : L.Stage (t.reject e) none := by
  cases h with
  | apart hq hnot hserved hp =>
    exact .apart (.inr ⟨e, rfl⟩) (fun c hc => by cases hc) hserved rfl

/-- A task whose next call is one of the service has no place. -/
theorem Placed.unplaced (h : L.Placed s s' place)
    (hnone : ((place i).bind fun k => s'.tasks[k]?) = none) : place i = none := by
  cases hk : place i with
  | none => rfl
  | some k =>
    obtain ⟨_, t', -, ht', -⟩ := h.get hk
    rw [hk, Option.bind_some, ht'] at hnone
    cases hnone

section Step

variable {P : M.World → M.sig.Op → Prop} {l : Label F.machine} {s₁ : Sys F.machine} {r : F.Request}

/-- The front end takes a request. -/
theorem Sim.start (h : L.Sim s s') :
    ∃ s₁', Run (Stepwise P) s' s₁' ∧ L.Sim { s with tasks := s.tasks ++ [.fresh r] } s₁' := by
  obtain ⟨hworld, place, hplaced⟩ := h
  have hdecode : L.Stage (.fresh r) none ∨
      ∃ c, L.Stage (.fresh r : Task F.machine) (some (.fresh c)) :=
    stage_or_serves .nil rfl (L.prog_eq r)
  rcases hdecode with hstage | ⟨c, hstage⟩
  · exact ⟨s', .refl _, hworld, place, hplaced.start hstage⟩
  · have hnone : place s.tasks.length = none := by
      by_contra hk
      obtain ⟨k, hk⟩ := Option.ne_none_iff_exists'.1 hk
      exact Nat.lt_irrefl _ (hplaced.lt _ k hk).1
    refine ⟨_, .single (l := .start c) trivial (.start s' c), hworld, _,
      hplaced.serve hnone ?_ ?_ ?_ hstage⟩
    · rw [List.length_append]
      omega
    · rw [List.getElem?_append_right (Nat.le_refl _), Nat.sub_self]
      rfl
    · intro j hj
      rw [List.getElem?_append]
      split_ifs with hlt
      · rfl
      · rw [List.getElem?_eq_none (by omega : s.tasks.length ≤ j), List.getElem?_eq_none]
        rw [List.length_singleton]
        omega

/-- A step of the front end is a step of the machine, or one that the machine does not see. -/
theorem Sim.step (h : L.Sim s s') (hl : Stepwise (F.Behind P) s l) (hst : Step s l s₁) :
    ∃ s₁', Run (Stepwise P) s' s₁' ∧ L.Sim s₁ s₁' := by
  cases hst with
  | start r => exact h.start
  | @env x w he =>
    obtain ⟨hworld, place, hplaced⟩ := h
    obtain ⟨w', henv, rfl⟩ := Option.map_eq_some_iff.1 he
    exact ⟨{ s' with world := w' }, .single (l := .env x) trivial
      (.env (by rw [hworld]; exact henv)),
      rfl, place, hplaced.lt, hplaced.inj, hplaced.onto, hplaced.stage⟩
  | @call i t o K r w ht hp he =>
    obtain ⟨hworld, place, hplaced⟩ := h
    have hstage := hplaced.stage i t ht
    cases o with
    | inl o =>
      obtain ⟨k, t', k', hk, ht', hstage, hp', hK⟩ := hstage.call_inl hp
      have hexec : M.exec o s'.world = (.ok r, w.1) := by
        rw [hworld]
        exact Front.exec_inl he
      refine ⟨_, .single ?_ (.call ht' hp' hexec), rfl, place,
        hplaced.both ht hk ht' (hstage.serve hworld (hK r))⟩
      intro o' ho'
      rw [Sys.nextCall_eq ht' hp'] at ho'
      cases ho'
      rw [hworld]
      exact hl _ (Sys.nextCall_eq ht hp)
    | inr o =>
      obtain ⟨hnone, k, hafter, hserved, hK⟩ := hstage.call_inr hp
      have hw : s.world.1 = w.1 := Front.exec_inr he
      have hnot := hplaced.unplaced hnone
      rcases Stage.ask (w := s.world) hafter hserved (hK r) with hstage | ⟨c, hstage⟩
      · exact ⟨s', .refl _, hworld.trans hw, place, hplaced.alone ht hnot hstage⟩
      · -- the machine starts to serve what has just been decoded
        refine ⟨_, .single (l := .start c) trivial (.start s' c), hworld.trans hw, _,
          hplaced.serve hnot ?_ ?_ ?_ hstage⟩
        · exact Nat.le_of_eq (List.length_set ..).symm
        · exact (Sys.put_getElem? (w := w) ht).trans (if_pos rfl)
        · exact fun j hj => (Sys.put_getElem? (w := w) ht).trans (if_neg fun hij => hj hij.symm)
  | @reject i t o K e w ht hp he =>
    obtain ⟨hworld, place, hplaced⟩ := h
    have hstage := hplaced.stage i t ht
    cases o with
    | inl o =>
      obtain ⟨k, t', k', hk, ht', hstage, hp', -⟩ := hstage.call_inl hp
      have hexec : M.exec o s'.world = (.error e, w.1) := by
        rw [hworld]
        exact Front.exec_inl he
      refine ⟨_, .single ?_ (.reject ht' hp' hexec), rfl, place,
        hplaced.both ht hk ht' hstage.reject⟩
      intro o' ho'
      rw [Sys.nextCall_eq ht' hp'] at ho'
      cases ho'
      rw [hworld]
      exact hl _ (Sys.nextCall_eq ht hp)
    | inr o =>
      have hnone := (hstage.call_inr hp).1
      rw [hnone] at hstage
      exact ⟨s', .refl _, hworld.trans (Front.exec_inr he), place,
        hplaced.alone ht (hplaced.unplaced hnone) hstage.reject_apart⟩
  | @fail i t o K ht hp hf =>
    obtain ⟨hworld, place, hplaced⟩ := h
    have hstage := hplaced.stage i t ht
    cases o with
    | inl o =>
      obtain ⟨k, t', k', hk, ht', hstage, hp', -⟩ := hstage.call_inl hp
      exact ⟨_, .single (l := .fail k) trivial (.fail ht' hp' hf), hworld, place,
        hplaced.both ht hk ht' hstage.reject⟩
    | inr o =>
      have hnone := (hstage.call_inr hp).1
      rw [hnone] at hstage
      exact ⟨s', .refl _, hworld, place,
        hplaced.alone ht (hplaced.unplaced hnone) hstage.reject_apart⟩

/-- **A run of a front end is a run of the machine behind it**, in which the machine serves what the
front end has decoded. -/
theorem sim_of_run {w : M.World} {v : F.service.World}
    (h : Run (Stepwise (F.Behind P)) (Sys.init (w, v)) s) :
    ∃ s', Run (Stepwise P) (Sys.init w) s' ∧ L.Sim s s' := by
  induction h with
  | refl =>
    refine ⟨Sys.init w, .refl _, rfl, fun _ => none, ?_, ?_, ?_, ?_⟩
    · intro i k hk
      cases hk
    · intro i j k hk
      cases hk
    · intro k hk
      exact absurd hk (Nat.not_lt_zero k)
    · intro i t ht
      cases ht
  | tail _ hst ih =>
    obtain ⟨l, hl, hst⟩ := hst
    obtain ⟨s', hr, hsim⟩ := ih
    obtain ⟨s₁', hr', hsim'⟩ := hsim.step hl hst
    exact ⟨s₁', hr.trans hr', hsim'⟩

/-- A task of the machine serves what a request of the front end has been decoded to. -/
theorem Sim.decoded (h : L.Sim s s') (ht' : s'.tasks[k]? = some t') :
    ∃ (i : ℕ) (t : Task F.machine), s.tasks[i]? = some t ∧ L.Stage t (some t') := by
  obtain ⟨-, place, hplaced⟩ := h
  obtain ⟨i, hi⟩ := hplaced.onto k (List.getElem?_eq_some_iff.1 ht').1
  obtain ⟨t, t₂, ht, ht₂, hstage⟩ := hplaced.get hi
  obtain rfl := Option.some.inj (ht₂.symm.trans ht')
  exact ⟨i, t, ht, hstage⟩

/-- A task of the front end is served by the machine, or has not been yet. -/
theorem Sim.task (h : L.Sim s s') (ht : s.tasks[i]? = some t) :
    L.Stage t none ∨
      ∃ (k : ℕ) (t' : Task M), s'.tasks[k]? = some t' ∧ L.Stage t (some t') := by
  obtain ⟨-, place, hplaced⟩ := h
  have hstage := hplaced.stage i t ht
  cases hx : (place i).bind fun k => s'.tasks[k]? with
  | none =>
    rw [hx] at hstage
    exact .inl hstage
  | some t' =>
    rw [hx] at hstage
    obtain ⟨k, -, ht'⟩ := Option.bind_eq_some_iff.1 hx
    exact .inr ⟨k, t', ht', hstage⟩

/-- An answer of the front end is an answer without the machine, or the reply of a task of the
machine to what the request has been decoded to. -/
theorem Sim.answered (h : L.Sim s s') (ht : s.tasks[i]? = some t) {a : F.Answer}
    (hp : t.prog = .pure a) :
    (Front.served t = [] ∧ (L.plan t.call).decode.After (Front.asked t) (.pure (.inr a))) ∨
      ∃ (k : ℕ) (t' : Task M) (reply : M.Reply), s'.tasks[k]? = some t' ∧ t'.prog = .pure reply ∧
        a = (L.plan t.call).encode reply ∧ Front.served t = t'.done ∧
        (L.plan t.call).decode.After (Front.asked t) (.pure (.inl t'.call)) := by
  rcases h.task ht with hstage | ⟨k, t', ht', hstage⟩
  · cases hstage with
    | @apart q hq hnot hserved hprog =>
      rw [hp] at hprog
      cases q with
      | call o k => cases hprog
      | raise e => cases hprog
      | pure x =>
        cases x with
        | inl c => exact absurd rfl (hnot c)
        | inr a' =>
          cases hprog
          rcases hq with hafter | ⟨e, he⟩
          · exact .inl ⟨hserved, hafter⟩
          · cases he
  · cases hstage with
    | serving hdecoded hserved hprog =>
      rw [hp] at hprog
      cases hreply : t'.prog with
      | call o k =>
        rw [hreply] at hprog
        cases hprog
      | raise e =>
        rw [hreply] at hprog
        cases hprog
      | pure reply =>
        rw [hreply] at hprog
        cases hprog
        exact .inr ⟨k, t', reply, ht', hreply, rfl, hserved, hdecoded⟩

end Step

end Layering

end Async
