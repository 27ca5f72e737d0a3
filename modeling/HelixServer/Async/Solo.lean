import HelixServer.Async.Machine

/-!
# A request that runs alone

## Main definitions

* `Machine.solo n p w` : the program and the world after `n` calls of `p` in the world `w`.
* `M.Comes p w o w'` : run alone from `w`, the program `p` comes to make the call `o` in `w'`.
* `M.Returns p w a` : run alone from `w`, the program `p` answers `a`.
* `M.Raises p w e` : run alone from `w`, the program `p` ends in the error `e`.
* `Sys.alone s c n` : the state after the request `c` has been started in `s` and has made `n`
  calls, while every other task stands still.
* `Sys.Fails s c o s'` : run alone from `s`, the request `c` has its call `o` rejected.
-/

namespace Async

variable {M : Machine}

/-- The program and the world after `n` calls of `p` in `w`, if it makes so many. -/
def Machine.solo (M : Machine) {α : Type} :
    ℕ → Prog M.sig M.Err α → M.World → Option (Prog M.sig M.Err α × M.World)
  | 0, p, w => some (p, w)
  | n + 1, .call o k, w =>
    match M.exec o w with
    | (.ok r, w') => M.solo n (k r) w'
    | (.error e, w') => M.solo n (.raise e) w'
  | _ + 1, _, _ => none

/-- Run alone from `w`, the program comes to make the call `o` in `w'`. -/
def Machine.Comes (M : Machine) {α : Type} (p : Prog M.sig M.Err α) (w : M.World) (o : M.sig.Op)
    (w' : M.World) : Prop :=
  ∃ n k, M.solo n p w = some (.call o k, w')

/-- Run alone from `w`, the program answers `a`. -/
def Machine.Returns (M : Machine) {α : Type} (p : Prog M.sig M.Err α) (w : M.World) (a : α) :
    Prop :=
  ∃ n w', M.solo n p w = some (.pure a, w')

/-- Run alone from `w`, the program ends in the error `e`. -/
def Machine.Raises (M : Machine) {α : Type} (p : Prog M.sig M.Err α) (w : M.World) (e : M.Err) :
    Prop :=
  ∃ n w', M.solo n p w = some (.raise e, w')

/-- The state after the given steps, without a condition. -/
def Sys.follow (s : Sys M) : List (Label M) → Option (Sys M)
  | [] => some s
  | l :: ls => (s.next l).bind fun s' => s'.follow ls

/-- The request `c` is started in `s` and makes `n` calls alone. -/
def Sys.alone (s : Sys M) (c : M.Call) (n : ℕ) : Option (Sys M) :=
  s.follow (.start c :: List.replicate n (.step s.tasks.length))

/-- The request `c` is started in `s`, makes some calls alone, and its next call `o` is rejected. -/
def Sys.Fails (s : Sys M) (c : M.Call) (o : M.sig.Op) (s' : Sys M) : Prop :=
  ∃ n s₁ t k, s.alone c n = some s₁ ∧ s₁.tasks[s.tasks.length]? = some t ∧ t.prog = .call o k ∧
    s₁.next (.fail s.tasks.length) = some s'

/-! ### Programs that run alone -/

section

variable {α β : Type} {n m : ℕ} {o o' : M.sig.Op} {w w' w₁ : M.World} {r : M.sig.Res o}
  {e : M.Err} {a : α} {p : Prog M.sig M.Err α} {f : α → Prog M.sig M.Err β}
  {k : M.sig.Res o → Prog M.sig M.Err α}

@[simp] theorem solo_zero : M.solo 0 p w = some (p, w) := by cases p <;> rfl

theorem solo_ok (h : M.exec o w = (.ok r, w')) :
    M.solo (n + 1) (.call o k) w = M.solo n (k r) w' := by
  simp [Machine.solo, h]

theorem solo_error (h : M.exec o w = (.error e, w')) :
    M.solo (n + 1) (.call o k) w = M.solo n (.raise e) w' := by
  simp [Machine.solo, h]

/-- The second part of a sequence runs where the first part has ended. -/
theorem solo_bind (h : M.solo n p w = some (.pure a, w')) :
    M.solo (n + m) (p.bind f) w = M.solo m (f a) w' := by
  induction n generalizing p w with
  | zero => rw [solo_zero] at h; cases h; simp
  | succ n ih =>
    cases p with
    | pure a => cases h
    | raise e => cases h
    | call o k =>
      rw [Nat.add_right_comm, Prog.call_bind]
      rcases he : M.exec o w with ⟨e | r, w₁⟩
      · rw [solo_error he] at h
        cases n <;> cases h
      · rw [solo_ok he] at h
        rw [solo_ok he]
        exact ih h

theorem not_comes_pure : ¬ M.Comes (.pure a) w o w' := by
  rintro ⟨_ | n, k, h⟩ <;> cases h

theorem comes_call (h : M.exec o w = (.ok r, w₁)) :
    M.Comes (.call o k) w o' w' ↔ (o' = o ∧ w' = w) ∨ M.Comes (k r) w₁ o' w' := by
  constructor
  · rintro ⟨_ | n, k', hs⟩
    · cases hs; exact .inl ⟨rfl, rfl⟩
    · rw [solo_ok h] at hs
      exact .inr ⟨n, k', hs⟩
  · rintro (⟨rfl, rfl⟩ | ⟨n, k', hs⟩)
    · exact ⟨0, k, rfl⟩
    · exact ⟨n + 1, k', (solo_ok h).trans hs⟩

/-- A sequence comes to the calls of its first part and, where that has ended, to those of the
second. -/
theorem comes_bind (h : M.solo n p w = some (.pure a, w₁)) :
    M.Comes (p.bind f) w o w' ↔ M.Comes p w o w' ∨ M.Comes (f a) w₁ o w' := by
  induction n generalizing p w with
  | zero =>
    rw [solo_zero] at h
    cases h
    simp [not_comes_pure]
  | succ n ih =>
    cases p with
    | pure a => cases h
    | raise e => cases h
    | call o k =>
      rcases he : M.exec o w with ⟨e | r, w₂⟩
      · rw [solo_error he] at h
        cases n <;> cases h
      · rw [solo_ok he] at h
        rw [Prog.call_bind, comes_call he, comes_call he, ih h, or_assoc]

theorem returns_pure {b : α} : M.Returns (.pure a) w b ↔ b = a := by
  refine ⟨?_, fun h => ⟨0, w, h ▸ rfl⟩⟩
  rintro ⟨_ | n, w', h⟩ <;> cases h
  rfl

theorem returns_call (h : M.exec o w = (.ok r, w₁)) :
    M.Returns (.call o k) w a ↔ M.Returns (k r) w₁ a := by
  constructor
  · rintro ⟨_ | n, w', hs⟩
    · cases hs
    · rw [solo_ok h] at hs
      exact ⟨n, w', hs⟩
  · rintro ⟨n, w', hs⟩
    exact ⟨n + 1, w', (solo_ok h).trans hs⟩

theorem raises_raise {e' : M.Err} : M.Raises (.raise e : Prog M.sig M.Err α) w e' ↔ e' = e := by
  refine ⟨?_, fun h => ⟨0, w, h ▸ rfl⟩⟩
  rintro ⟨_ | n, w', h⟩ <;> cases h
  rfl

theorem not_raises_pure : ¬ M.Raises (.pure a) w e := by
  rintro ⟨_ | n, w', h⟩ <;> cases h

theorem raises_call (h : M.exec o w = (.ok r, w₁)) :
    M.Raises (.call o k) w e ↔ M.Raises (k r) w₁ e := by
  constructor
  · rintro ⟨_ | n, w', hs⟩
    · cases hs
    · rw [solo_ok h] at hs
      exact ⟨n, w', hs⟩
  · rintro ⟨n, w', hs⟩
    exact ⟨n + 1, w', (solo_ok h).trans hs⟩

/-- The rule of sequential composition, for a first part that is known to end. -/
theorem returns_bind {b : β} (h : M.solo n p w = some (.pure a, w₁)) :
    M.Returns (p.bind f) w b ↔ M.Returns (f a) w₁ b := by
  induction n generalizing p w with
  | zero =>
    rw [solo_zero] at h
    cases h
    rfl
  | succ n ih =>
    cases p with
    | pure a => cases h
    | raise e => cases h
    | call o k =>
      rcases he : M.exec o w with ⟨e | r, w₂⟩
      · rw [solo_error he] at h
        cases n <;> cases h
      · rw [solo_ok he] at h
        rw [Prog.call_bind, returns_call he, ih h]

end

/-! ### Requests that run alone -/

section

variable {n : ℕ} {w w' : M.World} {ts : List (Task M)} {t : Task M} {s s' : Sys M} {c : M.Call}
  {p : Prog M.sig M.Err M.Reply}

theorem getElem?_last : (ts ++ [t])[ts.length]? = some t := by simp

/-- The last task makes `n` calls. -/
theorem follow_last :
    (Sys.mk w (ts ++ [t])).follow (List.replicate n (.step ts.length)) = some s' →
      ∃ t' w', M.solo n t.prog w = some (t'.prog, w') ∧ t'.call = t.call ∧
        s' = ⟨w', ts ++ [t']⟩ := by
  induction n generalizing w t with
  | zero => rintro ⟨⟩; exact ⟨t, w, solo_zero, rfl, rfl⟩
  | succ n ih =>
    intro h
    simp only [List.replicate_succ, Sys.follow, Sys.next, getElem?_last] at h
    cases hp : t.prog with
    | pure a => simp [hp] at h
    | raise e => simp [hp] at h
    | call o k =>
      rw [hp] at h
      rcases he : M.exec o w with ⟨_ | _, w₁⟩ <;> simp only [he, Option.bind_some, Sys.put] at h
      · rw [List.set_append_right _ _ (Nat.le_refl _)] at h
        simp only [Nat.sub_self, List.set_cons_zero] at h
        rw [solo_error he]
        exact ih h
      · rw [List.set_append_right _ _ (Nat.le_refl _)] at h
        simp only [Nat.sub_self, List.set_cons_zero] at h
        rw [solo_ok he]
        exact ih h

theorem exists_follow_last {p' : Prog M.sig M.Err M.Reply} (h : M.solo n t.prog w = some (p', w')) :
    ∃ t', (Sys.mk w (ts ++ [t])).follow (List.replicate n (.step ts.length)) =
      some ⟨w', ts ++ [t']⟩ ∧ t'.prog = p' ∧ t'.call = t.call := by
  induction n generalizing w t with
  | zero =>
    rw [solo_zero] at h
    cases h
    exact ⟨t, rfl, rfl, rfl⟩
  | succ n ih =>
    simp only [List.replicate_succ, Sys.follow, Sys.next, getElem?_last]
    cases hp : t.prog with
    | pure a => rw [hp] at h; cases h
    | raise e => rw [hp] at h; cases h
    | call o k =>
      rw [hp] at h
      rcases he : M.exec o w with ⟨e | r, w₁⟩ <;> simp only [he, Option.bind_some, Sys.put]
      · rw [solo_error he] at h
        rw [List.set_append_right _ _ (Nat.le_refl _)]
        simp only [Nat.sub_self, List.set_cons_zero]
        exact ih h
      · rw [solo_ok he] at h
        rw [List.set_append_right _ _ (Nat.le_refl _)]
        simp only [Nat.sub_self, List.set_cons_zero]
        exact ih h

theorem alone_some (h : s.alone c n = some s') :
    ∃ t w, M.solo n (M.prog c) s.world = some (t.prog, w) ∧ t.call = c ∧
      s' = ⟨w, s.tasks ++ [t]⟩ :=
  follow_last h

theorem exists_alone (h : M.solo n (M.prog c) s.world = some (p, w)) :
    ∃ t, s.alone c n = some ⟨w, s.tasks ++ [t]⟩ ∧ t.prog = p ∧ t.call = c :=
  exists_follow_last h

/-- What a rejected call leaves: the world that the request came to, and a request that has ended
with the rejection. -/
theorem Sys.Fails.comes {o : M.sig.Op} (h : s.Fails c o s') :
    M.fallible o = true ∧ ∃ w t, M.Comes (M.prog c) s.world o w ∧ s' = ⟨w, s.tasks ++ [t]⟩ ∧
      t.call = c ∧ t.prog = .raise M.fault := by
  obtain ⟨n, s₁, t, k, halone, ht, hp, hfail⟩ := h
  obtain ⟨t', w, hsolo, hc, rfl⟩ := alone_some halone
  obtain rfl : t' = t := Option.some.inj (getElem?_last.symm.trans ht)
  simp only [Sys.next, getElem?_last, hp] at hfail
  split_ifs at hfail with hf
  cases hfail
  refine ⟨hf, w, t'.reject M.fault, ⟨n, k, by rw [hsolo, hp]⟩, ?_, hc, rfl⟩
  simp [Sys.put]

/-- The given steps make a run. -/
theorem run_of_follow {ls : List (Label M)} (h : s.follow ls = some s') :
    Run (fun _ _ => True) s s' := by
  induction ls generalizing s with
  | nil => cases h; exact .refl _
  | cons l ls ih =>
    obtain ⟨s₁, hnext, hfollow⟩ := Option.bind_eq_some_iff.1 h
    exact (Lts.Run.single trivial (step_of_next hnext)).trans (ih hfollow)

theorem Sys.Fails.run {o : M.sig.Op} (h : s.Fails c o s') : Run (fun _ _ => True) s s' := by
  obtain ⟨n, s₁, t, k, halone, -, -, hfail⟩ := h
  exact (run_of_follow halone).trans (Lts.Run.single trivial (step_of_next hfail))

/-- A rejected call, found by running. -/
theorem Sys.exists_fails
    (h : ((s.alone c n).bind fun s₁ => s₁.next (.fail s.tasks.length)) = some s') :
    ∃ o, s.Fails c o s' ∧ (s.alone c n).bind (·.nextCall s.tasks.length) = some o := by
  obtain ⟨s₁, halone, hfail⟩ := Option.bind_eq_some_iff.1 h
  obtain ⟨t, w, hsolo, hc, rfl⟩ := alone_some halone
  have hnext := hfail
  simp only [Sys.next, getElem?_last] at hnext
  cases hp : t.prog with
  | pure a => simp [hp] at hnext
  | raise e => simp [hp] at hnext
  | call o k =>
    refine ⟨o, ⟨n, _, t, k, halone, getElem?_last, hp, hfail⟩, ?_⟩
    rw [halone, Option.bind_some]
    exact Sys.nextCall_eq getElem?_last hp

end

end Async
