import HelixServer.Integrity.Protocol
import HelixServer.Verification.Resend

/-!
# Verification links work once

A verification token that has been presented or written is never written again, so once no account
stores it, none will (`not_stored_of_run`).  The request that verifies an account clears the token
that it presents from the only account that stores it (`spent_of_run`): a link works once, and not
after a newer one has been written (`onlyOnce_of_run`).
-/

namespace HelixServer

namespace Integrity

open Async
open Verification (Fresh DistinctTokens tokenHash verifiedPatch verification_kept distinctIds_of_run
  token_of_step distinctTokens_of_step)

variable {cfg : Config} {core : Core}

/-! ### Tokens of the past -/

/-- The hash of the verification token that a request presents. -/
def presentedHash (cfg : Config) : Call → Option String
  | .verifyEmail token => some (hashOpaqueToken cfg.runtime token)
  | _ => none

/-- A request has presented the token, or a call has written it. -/
def Past (s : State cfg core) (hash : String) : Prop :=
  ∃ t ∈ s.tasks, presentedHash cfg t.call = some hash ∨ ∃ e ∈ t.done, tokenHash e.op = some hash

instance (s : State cfg core) (hash : String) : Decidable (Past s hash) :=
  inferInstanceAs (Decidable (∃ t ∈ s.tasks, presentedHash cfg t.call = some hash ∨
    ∃ e ∈ t.done, tokenHash e.op = some hash))

/-- An account stores the token. -/
def Stored (w : World core) (hash : String) : Prop :=
  ∃ r ∈ w.accounts, r.emailVerificationTokenHash = some hash

instance (w : World core) (hash : String) : Decidable (Stored w hash) :=
  inferInstanceAs (Decidable (∃ r ∈ w.accounts, r.emailVerificationTokenHash = some hash))

/-- New accounts have new ids, and a token that is written is stored by no account and not of the
past. -/
def OneTime : Discipline (server cfg core) := fun s l =>
  Fresh s l ∧
    match l with
    | .step i => ∀ o ∈ s.nextCall i, ∀ hash ∈ tokenHash o, ¬ Past s hash
    | _ => True

instance (s : State cfg core) (l : Label (server cfg core)) : Decidable (OneTime s l) :=
  match l with
  | .step i => inferInstanceAs (Decidable (Fresh s (.step i) ∧
      ∀ o ∈ s.nextCall i, ∀ hash ∈ tokenHash o, ¬ Past s hash))
  | .start _ | .fail _ | .env _ => .isTrue ⟨⟨trivial, trivial⟩, trivial⟩

/-- The calls have verified an account. -/
def Marked (es : List (Event (server cfg core))) : Prop :=
  ∃ a now, Did es (.accounts (.update a (verifiedPatch now)))

section

variable {C : Discipline (server cfg core)} {w₀ : World core} {s s' : State cfg core}
  {l : Label (server cfg core)} {t t' : Task (server cfg core)} {r : AccountRecord}
  {hash token : String} {j : ℕ}

theorem Past.step (h : Past s hash) (hst : Step s l s') : Past s' hash := by
  obtain ⟨t, ht, hpast⟩ := h
  obtain ⟨t', ht', hcall, hdone⟩ := hst.exists_later ht
  refine ⟨t', ht', hpast.imp (fun hpresented => ?_) ?_⟩
  · rw [hcall]
    exact hpresented
  · rintro ⟨e, he, hwritten⟩
    exact ⟨e, hdone.subset he, hwritten⟩

/-- A token of the past that is stored after a step was stored before. -/
theorem stored_of_step (hC : ∀ s l, C s l → OneTime s l) (hd : DistinctIds w₀)
    (h : Run C (Sys.init w₀) s) (hl : C s l) (hst : Step s l s') (hpast : Past s hash)
    (hr : r ∈ s'.world.accounts) (hhash : r.emailVerificationTokenHash = some hash) :
    ∃ r₀ ∈ s.world.accounts, r₀.id = r.id ∧ r₀.emailVerificationTokenHash = some hash := by
  have hids := distinctIds_of_run (fun s l hl => (hC s l hl).1.1) hd h
  rcases token_of_step (verification_kept.obeyed h) hids (hC s l hl).1.1 hst hr hhash with
    ⟨r₀, hr₀, hid, -, hold⟩ | ⟨i, expiresAt, rfl, hnext, -⟩
  · exact ⟨r₀, hr₀, hid, hold⟩
  · exact absurd hpast ((hC s _ hl).2 _ hnext hash rfl)

/-- **A token of the past does not come back.** -/
theorem not_stored_of_run (hC : ∀ s l, C s l → OneTime s l) (hd : DistinctIds w₀)
    (h : Run C (Sys.init w₀) s) (hpast : Past s hash) (hnot : ¬ Stored s.world hash)
    (h' : Run C s s') : Past s' hash ∧ ¬ Stored s'.world hash := by
  induction h' with
  | refl => exact ⟨hpast, hnot⟩
  | tail hr hst ih =>
    obtain ⟨l, hl, hst⟩ := hst
    refine ⟨ih.1.step hst, ?_⟩
    rintro ⟨r, hr', hhash⟩
    obtain ⟨r₀, hr₀, -, hold⟩ := stored_of_step hC hd (h.trans hr) hl hst ih.1 hr' hhash
    exact ih.2 ⟨r₀, hr₀, hold⟩

/-! ### A token that has verified an account -/

/-- A request that verifies an account with a token has found the account by it. -/
theorem Patches.found {es : List (Event (server cfg core))} {a : String} {now : ℕ}
    (h : Patches cfg (.verifyEmail token) es a (verifiedPatch now)) :
    ∃ account : AccountRecord, ∃ w,
      ⟨.accounts (.findByEmailVerificationTokenHash (hashOpaqueToken cfg.runtime token)),
        some account, w⟩ ∈ es ∧ account.id = a := by
  generalize hpatch : verifiedPatch now = patch at h
  cases h with
  | verified hconfirmed _ =>
    cases hconfirmed with
    | token he _ _ _ => exact ⟨_, _, he, rfl⟩
  | _ => cases hpatch

/-- Only the account that a token has found can store it, and none does once it has verified it. -/
structure Spent (s : State cfg core) : Prop where
  distinct : DistinctTokens s.world
  found : ∀ t ∈ s.tasks, ∀ hash ∈ presentedHash cfg t.call, ∀ account w,
    ⟨.accounts (.findByEmailVerificationTokenHash hash), some account, w⟩ ∈ t.done →
      ∀ r ∈ s.world.accounts, r.emailVerificationTokenHash = some hash →
        r.id = AccountRecord.id account
  marked : ∀ t ∈ s.tasks, ∀ hash ∈ presentedHash cfg t.call, Marked t.done → ¬ Stored s.world hash

theorem token_of_verified {w w' : World core} {a : String} {now : ℕ} {row : AccountRecord}
    (hd : DistinctIds w)
    (he : (Op.accounts (.update a (verifiedPatch now))).exec cfg w = (.ok row, w'))
    (hr : r ∈ w'.accounts) (hid : r.id = a) : r.emailVerificationTokenHash = none := by
  obtain ⟨-, hrows⟩ := Accounts.update_ok hd (Op.exec_of_accounts he)
  rw [hrows] at hr
  obtain ⟨r₀, -, rfl⟩ := List.mem_map.1 hr
  rw [Accounts.updateRow_id] at hid
  rw [Accounts.updateRow, if_pos (beq_iff_eq.2 hid)]
  rfl

theorem Spent.step (hC : ∀ s l, C s l → OneTime s l) (hd : DistinctIds w₀) (hs : Spent s)
    (h : Run C (Sys.init w₀) s) (hl : C s l) (hst : Step s l s') : Spent s' := by
  have hids := distinctIds_of_run (fun s l hl => (hC s l hl).1.1) hd h
  have hstored : ∀ {hash}, Past s hash → ∀ r ∈ s'.world.accounts,
      r.emailVerificationTokenHash = some hash →
        ∃ r₀ ∈ s.world.accounts, r₀.id = r.id ∧ r₀.emailVerificationTokenHash = some hash :=
    fun hpast r hr hhash => stored_of_step hC hd h hl hst hpast hr hhash
  refine ⟨distinctTokens_of_step (verification_kept.obeyed h) hids hs.distinct (hC s l hl).1 hst,
    ?_, ?_⟩
  · intro t' ht' hash hpresented account w he r hr hhash
    obtain ⟨j, ht'⟩ := List.mem_iff_getElem?.1 ht'
    rcases hst.grew ht' with ⟨c, -, -, rfl⟩ | ⟨t, ht, hcall, hdone⟩
    · cases he
    rw [hcall] at hpresented
    have hmem := List.mem_of_getElem? ht
    obtain ⟨r₀, hr₀, hid, hold⟩ := hstored ⟨t, hmem, .inl hpresented⟩ r hr hhash
    rw [← hid]
    have hbefore : ⟨.accounts (.findByEmailVerificationTokenHash hash), some account, w⟩ ∈ t.done →
        r₀.id = account.id := fun he => hs.found t hmem hash hpresented account w he r₀ hr₀ hold
    rcases hdone with hdone | ⟨o, k, res, rfl, hp, hexec, hdone⟩ <;> rw [hdone] at he
    · exact hbefore he
    rcases List.mem_append.1 he with he | he
    · exact hbefore he
    · -- the account has just been found
      cases List.mem_singleton.1 he
      have hfind := Except.ok.inj (congrArg Prod.fst (Op.exec_of_accounts hexec))
      refine hs.distinct r₀ hr₀ account (List.mem_of_find?_eq_some hfind) hash hold ?_
      simpa using List.find?_some hfind
  · rintro t' ht' hash hpresented ⟨a, now, e, he, hop⟩ ⟨r, hr, hhash⟩
    obtain ⟨j, ht'⟩ := List.mem_iff_getElem?.1 ht'
    rcases hst.grew ht' with ⟨c, -, -, rfl⟩ | ⟨t, ht, hcall, hdone⟩
    · cases he
    rw [hcall] at hpresented
    have hmem := List.mem_of_getElem? ht
    obtain ⟨r₀, hr₀, hid, hold⟩ := hstored ⟨t, hmem, .inl hpresented⟩ r hr hhash
    have hbefore : e ∉ t.done :=
      fun he => hs.marked t hmem hash hpresented ⟨a, now, e, he, hop⟩ ⟨r₀, hr₀, hold⟩
    rcases hdone with hdone | ⟨o, k, res, rfl, hp, hexec, hdone⟩ <;> rw [hdone] at he
    · exact hbefore he
    rcases List.mem_append.1 he with he | he
    · exact hbefore he
    · -- the account has just been verified, which is the one that has been found by the token
      obtain rfl := List.mem_singleton.1 he
      obtain rfl : o = .accounts (.update a (verifiedPatch now)) := hop
      have hpatch : Patches cfg t.call t.done a (verifiedPatch now) :=
        causes_kept.allowed_of_run h ht hp
      have hpresents := hpresented
      unfold presentedHash at hpresented
      split at hpresented
      · rename_i token htoken
        cases hpresented
        rw [htoken] at hpatch
        obtain ⟨account, w, hfound, rfl⟩ := hpatch.found
        have hsame := hs.found t hmem _ hpresents account w hfound r₀ hr₀ hold
        rw [token_of_verified hids hexec hr (hid.symm.trans hsame)] at hhash
        cases hhash
      · cases hpresented

theorem spent_of_run (hC : ∀ s l, C s l → OneTime s l) (hd : DistinctIds w₀)
    (hw : DistinctTokens w₀) (h : Run C (Sys.init w₀) s) : Spent s := by
  refine h.invariant (I := Spent) ⟨hw, ?_, ?_⟩ fun s l s' hr ih hl hst => ih.step hC hd hr hl hst
  all_goals
    intro t ht
    cases ht

/-! ### A request that is answered has verified an account -/

/-- A request that presents a token is answered once it has verified an account. -/
def marking (cfg : Config) (core : Core) : History (server cfg core) where
  allowed _ _ _ := True
  answers c es _ := (presentedHash cfg c).isSome = true → Marked es

theorem marking_step {c : Call} {es : List (Event (server cfg core))} {o : Op} :
    (marking cfg core).protocol.Obeys
      (fun q r => ∃ w w', o.exec cfg w = (.ok r, w') ∧ q = (c, es ++ [⟨o, r, w⟩])) (c, es)
      (await o) :=
  History.obeys_step trivial

theorem marking_verifyEmail :
    (marking cfg core).protocol.Obeys (fun q _ => Marked q.2) (.verifyEmail token, [])
      (AuthService.verifyEmail cfg token) := by
  refine marking_step.bind ?_
  rintro _ found ⟨w, -, -, rfl⟩
  cases found with
  | none => trivial
  | some account =>
    dsimp only
    cases account.emailVerificationExpiresAt with
    | none => trivial
    | some expiresAt =>
      refine (marking_step (o := .runtime .now)).bind ?_
      rintro _ now ⟨w₁, -, -, rfl⟩
      split_ifs
      · trivial
      · refine (marking_step (o := .runtime .now)).bind ?_
        rintro _ now' ⟨w₂, -, -, rfl⟩
        refine marking_step.bind ?_
        rintro _ row ⟨w₃, -, -, rfl⟩
        exact ⟨account.id, now', .last⟩

theorem marking_kept : (marking cfg core).Kept := by
  intro c
  by_cases hc : ∃ token, c = .verifyEmail token
  · obtain ⟨token, rfl⟩ := hc
    refine marking_verifyEmail.bind ?_
    intro q account hmarked _
    exact hmarked
  · -- the other requests present no token
    refine (History.obeys_uses (Prog.uses_true _) fun _ _ _ => trivial).mono ?_
    rintro ⟨c', es⟩ reply ⟨rfl, -⟩ hpresents
    unfold presentedHash at hpresents
    split at hpresents
    · rename_i token htoken
      exact absurd ⟨token, htoken⟩ hc
    · cases hpresents

/-! ### Links work once -/

/-- No request that is started later finds an account by the token. -/
theorem not_found_of_run (hC : ∀ s l, C s l → OneTime s l) (hd : DistinctIds w₀)
    (h : Run C (Sys.init w₀) s) (hpast : Past s hash) (hnot : ¬ Stored s.world hash)
    (h' : Run C s s') : ∀ j t', s.tasks.length ≤ j → s'.tasks[j]? = some t' → ∀ account w,
      ⟨.accounts (.findByEmailVerificationTokenHash hash), some account, w⟩ ∉ t'.done := by
  induction h' with
  | refl =>
    intro j t' hj ht'
    rw [List.getElem?_eq_none hj] at ht'
    cases ht'
  | @tail s₁ s₂ hr hst ih =>
    obtain ⟨l, -, hst⟩ := hst
    intro j t' hj ht' account w he
    rcases hst.grew ht' with ⟨c, -, -, rfl⟩ | ⟨t, ht, -, hdone⟩
    · cases he
    rcases hdone with hdone | ⟨o, k, res, rfl, hp, hexec, hdone⟩ <;> rw [hdone] at he
    · exact ih j t hj ht account w he
    rcases List.mem_append.1 he with he | he
    · exact ih j t hj ht account w he
    · cases List.mem_singleton.1 he
      have hfind := Except.ok.inj (congrArg Prod.fst (Op.exec_of_accounts hexec))
      refine (not_stored_of_run hC hd h hpast hnot hr).2
        ⟨account, List.mem_of_find?_eq_some hfind, ?_⟩
      simpa using List.find?_some hfind

/-- **Verification links work once.**  Along every run whose tokens are new, whatever is rejected:
once a request with a token has been answered, or no account stores any more a token that has been
written, no account ever stores it, and no request with it that is started later is answered. -/
theorem onlyOnce_of_run (hC : ∀ s l, C s l → OneTime s l) (hd : DistinctIds w₀)
    (hw : DistinctTokens w₀) (h : Run C (Sys.init w₀) s) (h' : Run C s s')
    (hspent : (∃ t ∈ s.tasks, t.call = .verifyEmail token ∧ ∃ reply, t.prog = .pure reply) ∨
      Past s (hashOpaqueToken cfg.runtime token) ∧
        ¬ Stored s.world (hashOpaqueToken cfg.runtime token)) :
    ¬ Stored s'.world (hashOpaqueToken cfg.runtime token) ∧
      ∀ j t', s.tasks.length ≤ j → s'.tasks[j]? = some t' → t'.call = .verifyEmail token →
        ∀ reply, t'.prog ≠ .pure reply := by
  have hpast : Past s (hashOpaqueToken cfg.runtime token) ∧
      ¬ Stored s.world (hashOpaqueToken cfg.runtime token) := by
    refine hspent.elim ?_ id
    rintro ⟨t, ht, hcall, reply, hp⟩
    have hpresents : presentedHash cfg t.call = some (hashOpaqueToken cfg.runtime token) := by
      rw [hcall]
      rfl
    obtain ⟨i, hi⟩ := List.mem_iff_getElem?.1 ht
    refine ⟨⟨t, ht, .inl hpresents⟩, (spent_of_run hC hd hw h).marked t ht _ hpresents ?_⟩
    exact marking_kept.answers_of_run h hi hp (by rw [hpresents]; rfl)
  refine ⟨(not_stored_of_run hC hd h hpast.1 hpast.2 h').2, fun j t' hj ht' hcall reply hp => ?_⟩
  have hrun := h.trans h'
  have hmarked : Marked t'.done := marking_kept.answers_of_run hrun ht' hp (by rw [hcall]; rfl)
  obtain ⟨a, now, e, he, hop⟩ := hmarked
  obtain ⟨es, es', hes⟩ := List.append_of_mem he
  have hallowed := causes_kept.allowed_of_done hrun ht' hes
  rw [hop, hcall] at hallowed
  have hpatch : Patches cfg (.verifyEmail token) es a (verifiedPatch now) := hallowed
  -- the account that it has verified has been found by the token
  obtain ⟨account, w, hfound, -⟩ := hpatch.found
  refine not_found_of_run hC hd h hpast.1 hpast.2 h' j t' hj ht' account w ?_
  rw [hes]
  exact List.mem_append_left _ hfound

end

/-! ### A link that is opened twice -/

/-- The task has been answered a verification with the first link of the sample server. -/
def isVerifiedBy (t : Task (server Config.sample Core.sample)) : Bool :=
  match t.call, t.prog with
  | .verifyEmail token, .pure _ => token == Verification.sampleLink
  | _, _ => false

theorem answered_of_isVerifiedBy {t : Task (server Config.sample Core.sample)}
    (h : isVerifiedBy t = true) :
    t.call = .verifyEmail Verification.sampleLink ∧ ∃ reply, t.prog = .pure reply := by
  unfold isVerifiedBy at h
  split at h
  · rename_i token reply hcall hp
    exact ⟨hcall.trans (congrArg Call.verifyEmail (eq_of_beq h)), reply, hp⟩
  · cases h

set_option maxRecDepth 4000 in
/-- After a registration, its link verifies the account, and no request that opens it again is
answered. -/
theorem onlyOnce_of_run_again : ∃ s : State Config.sample Core.sample,
    Run OneTime (Sys.init World.sample) s ∧ s.world.accounts.any (·.emailVerifiedAt.isSome) = true ∧
      ∀ s', Run OneTime s s' → ∀ j t', s.tasks.length ≤ j → s'.tasks[j]? = some t' →
        t'.call = .verifyEmail Verification.sampleLink → ∀ reply, t'.prog ≠ .pure reply := by
  obtain ⟨s, h, hp⟩ := exists_run_of_replay (C := OneTime) (s := Sys.init World.sample)
    (Verification.registered ++
      .start (.verifyEmail Verification.sampleLink) :: List.replicate 4 (.step 1))
    (fun s => s.world.accounts.any (·.emailVerifiedAt.isSome) && s.tasks.any isVerifiedBy)
    (by decide)
  obtain ⟨hverified, hp⟩ := Bool.and_eq_true_iff.1 hp
  obtain ⟨t, ht, hp⟩ := List.any_eq_true.1 hp
  obtain ⟨hcall, hreply⟩ := answered_of_isVerifiedBy hp
  have hd : DistinctIds (World.sample : World Core.sample) := .nil
  have hw : DistinctTokens (World.sample : World Core.sample) := by
    intro r hr
    cases hr
  refine ⟨s, h, hverified, fun s' h' => ?_⟩
  exact (onlyOnce_of_run (fun _ _ => id) hd hw h h' (.inl ⟨t, ht, hcall, hreply⟩)).2

end Integrity

end HelixServer
