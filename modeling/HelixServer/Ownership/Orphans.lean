import HelixServer.Ownership.Links

/-!
# Credentials of failed requests

The core call of a request and the link of what it creates are two writes, and nothing undoes the
first when the second is rejected.  A request that fails has created no credential, or has linked
it, or its link was rejected, and then no account ever owns the credential (`vc_of_request`).
-/

namespace HelixServer

namespace Ownership

open Async

variable {cfg : Config} {core : Core} {s s' : State cfg core} {t : Task (server cfg core)}

/-- Between its core call and its link a request ends with nothing but a rejection. -/
theorem tolerate_obeyed {C : Discipline (server cfg core)} {w₀ : World core}
    (h : Run C (Sys.init w₀) s) : (protocol cfg core).tolerate.Obeyed s := by
  have hsound : (protocol cfg core).tolerate.Sound C := by
    refine ⟨fun c => (obeys_prog c).tolerate, ?_, fun _ _ _ _ _ _ _ _ _ => trivial⟩
    intro s i t o k e w _ _ _ ha he o' r a hq
    rw [show (protocol cfg core).tolerate.state t = _ from hq] at ha
    exact link_not_refused ha he
  exact Protocol.obeys_of_run hsound (Protocol.obeyed_init w₀) h

/-- The request creates credentials. -/
def CreatesVc (c : Call) : Prop := (coreOp c).map creates = some .vcAccountLinks

/-- Where a request stands that creates credentials and has created `v`, or none. -/
theorem Linking.vc_cases (hk : Linking s) (ht : t ∈ s.tasks) (hcreates : CreatesVc t.call) :
    coreResult t = none ∨ ∃ o v, coreResult t = some v ∧ creates o = .vcAccountLinks ∧
      ((∃ a, stageOf t = .created o v a ∧ requestAccount t = some a) ∨
        (stageOf t = .settled o v (requestAccount t) ∧ owner s v = requestAccount t)) := by
  have htraced := hk.traced t ht
  obtain ⟨o, hop, hvc⟩ := Option.map_eq_some_iff.1 hcreates
  have hstage : (stageOf t).op = some o := htraced.op.trans hop
  have hne : stageOf t ≠ .aside := fun h => by rw [h] at hstage; cases hstage
  have hresult := htraced.result hne
  have haccount := htraced.account hne
  cases hq : stageOf t with
  | created o' v a =>
    rw [hq] at hstage hresult haccount
    cases hstage
    exact .inr ⟨o, v, hresult, hvc, .inl ⟨a, rfl, haccount⟩⟩
  | settled o' v b =>
    rw [hq] at hstage hresult haccount
    cases hstage
    refine .inr ⟨o, v, hresult, hvc, .inr ⟨by rw [haccount]; rfl, ?_⟩⟩
    have hmakes : (stageOf t).makes = some (.vcAccountLinks, v) := by
      rw [hq, ← hvc]; rfl
    rw [haccount, hk.owner_of_makes ht hmakes (by rw [hq]; exact nofun), hq]
  | _ => rw [hq] at hresult; exact .inl hresult

/-- **What becomes of the credential of a request.**  In every run, whatever is rejected, a request
that fails has created no credential; or the credential is linked to its account; or the link was
rejected, and then the credential has no owner, now or later.  A request that answers a credential
has linked it to its account. -/
theorem vc_of_request (hinj : Function.Injective cfg.runtime.hashToken) {w₀ : World core}
    (hids : ∀ r ∈ w₀.accounts, r.id ≠ "") (hlinks : ∀ table, w₀.links table = [])
    (h : Run Fresh (Sys.init w₀ : State cfg core) s) (ht : t ∈ s.tasks)
    (hcreates : CreatesVc t.call) :
    (∀ e, t.prog = .raise e → coreResult t = none ∨ ∃ v, coreResult t = some v ∧
        (owner s v = requestAccount t ∨
          e = .rejected ∧ ∀ s', Run Fresh s s' → owner s' v = none)) ∧
      ∀ v, t.prog = .pure (.vc v) → coreResult t = some v ∧ owner s v = requestAccount t := by
  obtain ⟨ho, hk⟩ := linking_of_run hinj hids hlinks h
  obtain ⟨i, hi, hti⟩ := List.mem_iff_getElem.1 ht
  have hti' : s.tasks[i]? = some t := List.getElem?_eq_some_iff.2 ⟨hi, hti⟩
  refine ⟨fun e hp => ?_, fun v hp => ?_⟩
  · rcases hk.vc_cases ht hcreates with hnone | ⟨o, v, hv, hvc, ⟨a, hq, -⟩ | ⟨-, howner⟩⟩
    · exact .inl hnone
    · refine .inr ⟨v, hv, .inr ⟨?_, fun s' h' => ?_⟩⟩
      · by_contra hne
        exact (tolerate_obeyed h).raises hti' hp hne o v a hq
      · -- the request has ended, so it never comes to link what it has created
        obtain ⟨-, hk'⟩ := linking_of_run hinj hids hlinks (h.trans h')
        obtain ⟨t', ht', -, -, hsame⟩ := Run.getElem? h' hti'
        obtain rfl := hsame (by simp [Task.running, Prog.running, hp])
        have hnone := hk'.unlinked ht' hq
        rw [hvc] at hnone
        exact hnone
    · exact .inr ⟨v, hv, .inl howner⟩
  · obtain ⟨hmakes, howner⟩ := hk.owner_eq ho ht hp
    have hne : stageOf t ≠ .aside := fun h => by rw [h] at hmakes; cases hmakes
    have htraced := hk.traced t ht
    rw [htraced.result hne, htraced.account hne, hmakes]
    exact ⟨rfl, howner⟩

/-! ### A rejected link -/

/-- The request has failed with a rejection. -/
def isRejected (t : Task (server cfg core)) : Bool :=
  match t.prog with
  | .raise e => e == .rejected
  | _ => false

theorem prog_of_isRejected (h : isRejected t = true) : t.prog = .raise .rejected := by
  unfold isRejected at h
  split at h
  · rename_i e he
    rw [he, eq_of_beq h]
  · cases h

/-- The account has asked for the credential `vc:0`, which the core has issued, and got an error. -/
def FailedIssue (s : State cfg core) (t : Task (server cfg core)) : Prop :=
  t ∈ s.tasks ∧ CreatesVc t.call ∧ requestAccount t = some "acct:1" ∧ coreResult t = some "vc:0" ∧
    t.prog = .raise .rejected

instance (c : Call) : Decidable (CreatesVc c) := inferInstanceAs (Decidable (_ = _))

theorem exists_failedIssue : ∃ (s : State Config.sampleHosted Core.sample) (t : _),
    Run Fresh (Sys.init .sampleHosted) s ∧ FailedIssue s t ∧ owner s "vc:0" = none := by
  obtain ⟨s, h, hp⟩ := exists_run_of_replay (C := Fresh)
    (s := (Sys.init .sampleHosted : State Config.sampleHosted Core.sample))
    (.start (.issueVC sampleRequest .null) :: List.replicate 3 (.step 0) ++ [.fail 0])
    (fun s => owner s "vc:0" == none && (s.tasks[0]?).any fun t => isRejected t &&
      decide (CreatesVc t.call ∧ requestAccount t = some "acct:1" ∧ coreResult t = some "vc:0"))
    (by decide)
  obtain ⟨howner, hp⟩ := Bool.and_eq_true_iff.1 hp
  obtain ⟨t, ht, hp⟩ := (Option.any_eq_true _ _).1 hp
  obtain ⟨hrejected, hp⟩ := Bool.and_eq_true_iff.1 hp
  obtain ⟨hc, ha, hv⟩ := of_decide_eq_true hp
  exact ⟨s, t, h, ⟨List.mem_of_getElem? ht, hc, ha, hv, prog_of_isRejected hrejected⟩,
    eq_of_beq howner⟩

/-- **The credential of a failed request can be nobody's.** -/
theorem failedIssue_unowned : ∃ (s : State Config.sampleHosted Core.sample) (t : _),
    Run Fresh (Sys.init .sampleHosted) s ∧ FailedIssue s t ∧
      ¬ (coreResult t = none ∨ owner s "vc:0" = requestAccount t) := by
  obtain ⟨s, t, h, hf, howner⟩ := exists_failedIssue
  refine ⟨s, t, h, hf, ?_⟩
  obtain ⟨-, -, ha, hv, -⟩ := hf
  rw [hv, howner, ha]
  exact fun h => h.elim nofun nofun

/-- And it stays nobody's. -/
theorem vc_of_request_rejected : ∃ (s : State Config.sampleHosted Core.sample) (t : _),
    FailedIssue s t ∧ ∀ s', Run Fresh s s' → owner s' "vc:0" = none := by
  obtain ⟨s, t, h, hf, howner⟩ := exists_failedIssue
  obtain ⟨ht, hc, ha, hv, hp⟩ := id hf
  obtain ⟨hfail, -⟩ := vc_of_request (fun _ _ h => h) (by decide) (by rintro (_ | _ | _) <;> rfl) h
    ht hc
  obtain ⟨v, hv', hcase⟩ := (hfail _ hp).resolve_left (by rw [hv]; exact nofun)
  obtain rfl : "vc:0" = v := Option.some.inj (hv.symm.trans hv')
  refine ⟨s, t, hf, (hcase.resolve_left ?_).2⟩
  rw [howner, ha]
  exact nofun

end Ownership

end HelixServer
