import HelixServer.Async.Protocol

/-!
# Conditions on the calls a task has made

A `History` says which calls and replies are justified by the request and the calls that the task
has made before.  It is the protocol whose states are these calls, so that once every program
keeps to it, so does every task of every run (`History.allowed_of_run`, `History.answers_of_run`).

The calls that a task has made are calls of the machine, made in worlds of the run
(`Run.event`), each by one step of it (`Run.made`); what is required of the requests that are
started holds of every task (`Run.started`).
-/

namespace Async

/-- Which calls and replies the calls made before justify. -/
structure History (M : Machine) where
  allowed : M.Call → List (Event M) → M.sig.Op → Prop
  answers : M.Call → List (Event M) → M.Reply → Prop

namespace History

variable {M : Machine} (H : History M)

/-- The protocol whose states are the calls that have been made. -/
def protocol : Protocol M (M.Call × List (Event M)) where
  init := fun c => (c, [])
  next := fun q e => (q.1, q.2 ++ [e])
  allowed := fun q o => H.allowed q.1 q.2 o
  answers := fun q a => H.answers q.1 q.2 a
  raises := fun _ _ => True
  fails := fun _ => True

theorem state_eq (t : Task M) : H.protocol.state t = (t.call, t.done) := by
  have hfold : ∀ (es : List (Event M)) (q : M.Call × List (Event M)),
      es.foldl H.protocol.next q = (q.1, q.2 ++ es) := by
    intro es
    induction es with
    | nil => intro q; simp
    | cons e es ih => intro q; rw [List.foldl_cons, ih]; simp [protocol]
  rw [Protocol.state, hfold]
  simp [protocol]

/-- Every program keeps to the conditions. -/
def Kept : Prop := ∀ c, H.protocol.Obeys (fun q a => H.answers q.1 q.2 a) (c, []) (M.prog c)

variable {H}

section

variable {α : Type} {c : M.Call} {es : List (Event M)} {o : M.sig.Op} {p : Prog M.sig M.Err α}

/-- One call. -/
theorem obeys_step (ha : H.allowed c es o) :
    H.protocol.Obeys
      (fun q r => ∃ w w', M.exec o w = (.ok r, w') ∧ q = (c, es ++ [⟨o, r, w⟩])) (c, es)
      (.perform o) :=
  Protocol.obeys_perform ha fun w _ w' he => ⟨w, w', he, rfl⟩

/-- A program of which every call is justified, whatever has been called before. -/
theorem obeys_uses {N : M.sig.Op → Prop} {R : M.Err → Prop} (hp : p.Uses N R)
    (hN : ∀ o es, N o → H.allowed c es o) :
    H.protocol.Obeys (fun q _ => q.1 = c ∧ es <+: q.2) (c, es) p := by
  refine Protocol.obeys_of_uses_keeping (I := fun q => q.1 = c ∧ es <+: q.2)
    ⟨rfl, List.prefix_rfl⟩ hp (fun q o hq ho => ?_) (fun _ _ _ _ => trivial) fun _ _ hq => hq
  obtain ⟨c', es'⟩ := q
  obtain ⟨rfl, hes⟩ := hq
  exact ⟨hN o es' ho, fun r w => ⟨rfl, hes.trans (List.prefix_append ..)⟩⟩

end

variable {C : Discipline M} {w : M.World} {s : Sys M} {i : ℕ} {t : Task M}

theorem Kept.sound (hH : H.Kept) : H.protocol.Sound C :=
  ⟨hH, fun _ _ _ _ _ _ _ _ _ _ _ _ => trivial, fun _ _ _ _ _ _ _ _ _ => trivial⟩

theorem Kept.obeyed (hH : H.Kept) (h : Run C (Sys.init w) s) : H.protocol.Obeyed s :=
  Protocol.obeys_of_run hH.sound (Protocol.obeyed_init w) h

/-- **Every call of a run is justified.** -/
theorem Kept.allowed_of_run (hH : H.Kept) (h : Run C (Sys.init w) s) (ht : s.tasks[i]? = some t)
    {o : M.sig.Op} {k} (hp : t.prog = .call o k) : H.allowed t.call t.done o := by
  have ha := (hH.obeyed h).allowed ht hp
  rwa [state_eq] at ha

/-- **Every reply of a run is justified.** -/
theorem Kept.answers_of_run (hH : H.Kept) (h : Run C (Sys.init w) s) (ht : s.tasks[i]? = some t)
    {a : M.Reply} (hp : t.prog = .pure a) : H.answers t.call t.done a := by
  have ha := (hH.obeyed h).answers ht hp
  rwa [state_eq] at ha

end History

/-! ### The calls of a run -/

section

variable {M : Machine} {C : Discipline M} {s₀ s : Sys M}

/-- A task that has gone on has the calls that it had made. -/
theorem Step.exists_later {s' : Sys M} {l : Label M} (h : Step s l s') {t : Task M}
    (ht : t ∈ s.tasks) : ∃ t' ∈ s'.tasks, t'.call = t.call ∧ t.done <+: t'.done := by
  obtain ⟨i, hi⟩ := List.mem_iff_getElem?.1 ht
  obtain ⟨t', ht', hcall, hdone, -⟩ := h.getElem? hi
  exact ⟨t', List.mem_of_getElem? ht', hcall, hdone⟩

/-- A task has just been started, or has made at most one call more. -/
theorem Step.grew {s' : Sys M} {l : Label M} (h : Step s l s') {j : ℕ} {t' : Task M}
    (ht' : s'.tasks[j]? = some t') :
    (∃ c, l = .start c ∧ j = s.tasks.length ∧ t' = .fresh c) ∨
      ∃ t, s.tasks[j]? = some t ∧ t'.call = t.call ∧ (t'.done = t.done ∨
        ∃ o k r, l = .step j ∧ t.prog = .call o k ∧ M.exec o s.world = (.ok r, s'.world) ∧
          t'.done = t.done ++ [⟨o, r, s.world⟩]) := by
  cases h with
  | start c =>
    rw [List.getElem?_append] at ht'
    split_ifs at ht' with hj
    · exact .inr ⟨t', ht', rfl, .inl rfl⟩
    · have hlast := (List.getElem?_eq_some_iff.1 ht').1
      rw [List.length_singleton] at hlast
      exact .inl ⟨c, rfl, by omega, List.mem_singleton.1 (List.mem_of_getElem? ht')⟩
  | env he => exact .inr ⟨t', ht', rfl, .inl rfl⟩
  | @call i t o k r w ht hp he =>
    rw [Sys.put_getElem? ht] at ht'
    by_cases hij : i = j
    · subst hij
      rw [if_pos rfl] at ht'
      obtain rfl := Option.some.inj ht'
      exact .inr ⟨t, ht, rfl, .inr ⟨o, k, r, rfl, hp, he, rfl⟩⟩
    · rw [if_neg hij] at ht'
      exact .inr ⟨t', ht', rfl, .inl rfl⟩
  | @reject i t o k e w ht hp he | @fail i t o k ht hp hf =>
    rw [Sys.put_getElem? ht] at ht'
    by_cases hij : i = j
    · subst hij
      rw [if_pos rfl] at ht'
      obtain rfl := Option.some.inj ht'
      exact .inr ⟨t, ht, rfl, .inl rfl⟩
    · rw [if_neg hij] at ht'
      exact .inr ⟨t', ht', rfl, .inl rfl⟩

/-- A condition on the requests that are started holds of every task. -/
theorem Run.started {R : ℕ → M.Call → Prop} (hC : ∀ s c, C s (.start c) → R s.tasks.length c)
    (h : Run C s₀ s) (h₀ : s₀.tasks = []) :
    ∀ i t, s.tasks[i]? = some t → R i t.call := by
  refine h.invariant (I := fun s => ∀ i t, s.tasks[i]? = some t → R i t.call) ?_
    fun s l s' _ ih hl hst i t' ht' => ?_
  · intro i t ht
    rw [h₀] at ht
    cases ht
  rcases hst.grew ht' with ⟨c, rfl, rfl, rfl⟩ | ⟨t, ht, hcall, -⟩
  · exact hC s c hl
  · rw [hcall]
    exact ih i t ht

/-- **A call that a task has made** is one of the machine, made in a state of the run. -/
theorem Run.event (h : Run C s₀ s) (h₀ : s₀.tasks = []) : ∀ t ∈ s.tasks, ∀ e ∈ t.done,
    (∃ w, M.exec e.op e.pre = (.ok e.res, w)) ∧
      ∃ s', Run C s₀ s' ∧ Run C s' s ∧ s'.world = e.pre := by
  induction h with
  | refl => rw [h₀]; exact nofun
  | @tail s₁ s₂ hr hst ih =>
    obtain ⟨l, hl, hst⟩ := hst
    have hlast : Run C s₁ s₂ := Lts.Run.single hl hst
    have hold : ∀ t ∈ s₁.tasks, ∀ e ∈ t.done, (∃ w, M.exec e.op e.pre = (.ok e.res, w)) ∧
        ∃ s', Run C s₀ s' ∧ Run C s' s₂ ∧ s'.world = e.pre := fun t ht e he => by
      obtain ⟨hexec, s', h, h', hw⟩ := ih t ht e he
      exact ⟨hexec, s', h, h'.trans hlast, hw⟩
    intro t ht e he
    cases hst with
    | start c =>
      rcases List.mem_append.1 ht with ht | ht
      · exact hold t ht e he
      · obtain rfl := List.mem_singleton.1 ht
        cases he
    | env _ => exact hold t ht e he
    | call h₁ hp hexec =>
      rcases Sys.mem_put ht with rfl | ht
      · -- the calls before this one are old
        rcases List.mem_append.1 he with he | he
        · exact hold _ (List.mem_of_getElem? h₁) e he
        · obtain rfl := List.mem_singleton.1 he
          exact ⟨⟨_, hexec⟩, s₁, hr, hlast, rfl⟩
      · exact hold t ht e he
    | reject h₁ hp hexec | fail h₁ hp hf =>
      rcases Sys.mem_put ht with rfl | ht
      · exact hold _ (List.mem_of_getElem? h₁) e he
      · exact hold t ht e he

/-- **The step that made a call**: the task had made the calls before it, and the run goes on from
the world that the call has left. -/
theorem Run.made (h : Run C s₀ s) (h₀ : s₀.tasks = []) : ∀ i t, s.tasks[i]? = some t →
    ∀ es e es', t.done = es ++ e :: es' → ∃ s₁ s₂ t₁ k, Run C s₀ s₁ ∧ C s₁ (.step i) ∧
      Step s₁ (.step i) s₂ ∧ s₁.tasks[i]? = some t₁ ∧ t₁.call = t.call ∧ t₁.done = es ∧
      t₁.prog = .call e.op k ∧ s₁.world = e.pre ∧ M.exec e.op e.pre = (.ok e.res, s₂.world) ∧
      Run C s₂ s := by
  induction h with
  | refl => rw [h₀]; exact nofun
  | @tail s' s hr hst ih =>
    obtain ⟨l, hl, hst⟩ := hst
    have hold : ∀ i t, s'.tasks[i]? = some t → ∀ es e es', t.done = es ++ e :: es' → ∃ s₁ s₂ t₁ k,
        Run C s₀ s₁ ∧ C s₁ (.step i) ∧ Step s₁ (.step i) s₂ ∧ s₁.tasks[i]? = some t₁ ∧
        t₁.call = t.call ∧ t₁.done = es ∧ t₁.prog = .call e.op k ∧ s₁.world = e.pre ∧
        M.exec e.op e.pre = (.ok e.res, s₂.world) ∧ Run C s₂ s := by
      intro i t ht es e es' hes
      obtain ⟨s₁, s₂, t₁, k, h₁, hc, hst₁, ht₁, hcall, hdone, hp, hw, hexec, h₂⟩ :=
        ih i t ht es e es' hes
      exact ⟨s₁, s₂, t₁, k, h₁, hc, hst₁, ht₁, hcall, hdone, hp, hw, hexec,
        h₂.trans (Lts.Run.single hl hst)⟩
    intro j t ht es e es' hes
    cases hst with
    | start c =>
      rw [List.getElem?_append] at ht
      split_ifs at ht with hj
      · exact hold j t ht es e es' hes
      · obtain rfl := List.mem_singleton.1 (List.mem_of_getElem? ht)
        simp at hes
    | env _ => exact hold j t ht es e es' hes
    | @call i t₁ o k r w h₁ hp hexec =>
      rw [Sys.put_getElem? h₁] at ht
      by_cases hij : i = j
      · subst hij
        rw [if_pos rfl] at ht
        obtain rfl := Option.some.inj ht
        rw [Task.resume_done] at hes
        rcases List.eq_nil_or_concat es' with rfl | ⟨es'', e', rfl⟩
        · -- the call is the last one
          obtain ⟨hdone, he⟩ := List.append_inj' hes rfl
          cases he
          exact ⟨s', _, t₁, k, hr, hl, .call h₁ hp hexec, h₁, rfl, hdone, hp, rfl, hexec, .refl _⟩
        · rw [List.concat_eq_append, ← List.cons_append, ← List.append_assoc] at hes
          exact hold i t₁ h₁ es e es'' (List.append_inj' hes rfl).1
      · rw [if_neg hij] at ht
        exact hold j t ht es e es' hes
    | @reject i t₁ o k e w h₁ hp hexec | @fail i t₁ o k h₁ hp hf =>
      rw [Sys.put_getElem? h₁] at ht
      by_cases hij : i = j
      · subst hij
        rw [if_pos rfl] at ht
        obtain rfl := Option.some.inj ht
        exact hold i t₁ h₁ es _ es' hes
      · rw [if_neg hij] at ht
        exact hold j t ht es _ es' hes

/-- **Every call that a task has made was justified** by the calls before it. -/
theorem History.Kept.allowed_of_done {H : History M} (hH : H.Kept) {w : M.World}
    (h : Run C (Sys.init w) s) {i : ℕ} {t : Task M} (ht : s.tasks[i]? = some t)
    {es es' : List (Event M)} {e : Event M} (hes : t.done = es ++ e :: es') :
    H.allowed t.call es e.op := by
  obtain ⟨s₁, s₂, t₁, k, h₁, -, -, ht₁, hcall, hdone, hp, -, -, -⟩ := h.made rfl i t ht es e es' hes
  have hallowed := hH.allowed_of_run h₁ ht₁ hp
  rwa [hcall, hdone] at hallowed

end

end Async
