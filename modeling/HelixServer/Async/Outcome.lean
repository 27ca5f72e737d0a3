import HelixServer.Async.Machine

/-!
# What a request ends with when some calls fail

* `M.outcome rejects p w` : what the program `p` ends with that runs alone from `w`, where the calls
  that `rejects` names are rejected.
-/

namespace Async

variable {M : Machine}

/-- What the program ends with that runs alone from `w`, where the calls that `rejects` names are
rejected. -/
def Machine.outcome (M : Machine) (rejects : M.sig.Op → Bool) {α : Type} :
    Prog M.sig M.Err α → M.World → Except M.Err α
  | .pure a, _ => .ok a
  | .raise e, _ => .error e
  | .call o k, w =>
    if rejects o then .error M.fault
    else
      match M.exec o w with
      | (.ok r, w') => M.outcome rejects (k r) w'
      | (.error e, _) => .error e

section

variable {rejects : M.sig.Op → Bool} {α β : Type} {o : M.sig.Op} {w w' : M.World}
  {r : M.sig.Res o} {e : M.Err} {a : α} {p : Prog M.sig M.Err α} {f : α → Prog M.sig M.Err β}
  {k : M.sig.Res o → Prog M.sig M.Err α}

@[simp] theorem outcome_pure : M.outcome rejects (.pure a) w = .ok a := by
  rw [Machine.outcome]

@[simp] theorem outcome_raise :
    M.outcome rejects (.raise e : Prog M.sig M.Err α) w = .error e := by
  rw [Machine.outcome]

theorem outcome_rejected (h : rejects o = true) :
    M.outcome rejects (.call o k) w = .error M.fault := by
  rw [Machine.outcome, if_pos h]

theorem outcome_call (hr : rejects o = false) (h : M.exec o w = (.ok r, w')) :
    M.outcome rejects (.call o k) w = M.outcome rejects (k r) w' := by
  rw [Machine.outcome, hr, h]
  rfl

/-- The rule of a last step that makes no call. -/
theorem outcome_map (g : α → β) :
    M.outcome rejects (p.bind fun a => .pure (g a)) w = (M.outcome rejects p w).map g := by
  induction p generalizing w with
  | pure a => simp [Except.map]
  | raise e => simp [Except.map]
  | call o k ih =>
    rw [Prog.call_bind, Machine.outcome, Machine.outcome]
    split_ifs
    · rfl
    · rcases M.exec o w with ⟨e | r, w'⟩
      · rfl
      · exact ih r

end

end Async
