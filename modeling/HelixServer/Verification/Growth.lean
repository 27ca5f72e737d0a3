import HelixServer.Verification.Protocol

/-!
# What a run does to the accounts

Along every run whose new accounts have new ids, an account keeps its id and its e-mail and stays
verified once it is (`grown_of_run`): a step inserts a row or patches one in one of the four ways
(`step_rows`).
-/

namespace HelixServer

namespace Verification

open Async

variable {cfg : Config} {core : Core}

/-- The account ids that a run draws are new. -/
def NewAccounts : Discipline (server cfg core) := fun s l =>
  match l with
  | .step i => ∀ o ∈ s.nextCall i, FreshAccountId cfg s.world o
  | _ => True

instance (s : State cfg core) (l : Label (server cfg core)) : Decidable (NewAccounts s l) :=
  match l with
  | .step i => inferInstanceAs (Decidable (∀ o ∈ s.nextCall i, FreshAccountId cfg s.world o))
  | .start _ | .fail _ | .env _ => .isTrue trivial

/-- How a call changes the accounts. -/
inductive Wrote (cfg : Config) (w w' : World core) : Op → Prop
  | create (data : AccountCreateData) (hnew : ∀ r ∈ w.accounts, r.id ≠ w.freshId cfg "acct")
      (hrows : w'.accounts = w.accounts ++ [data.row (w.freshId cfg "acct") w.now]) :
      Wrote cfg w w' (.accounts (.create data))
  | update (a : String) (patch : AccountPatch) (hpatch : IsPatch patch)
      (hrows : w'.accounts = w.accounts.map (Accounts.updateRow a patch w.now)) :
      Wrote cfg w w' (.accounts (.update a patch))

theorem rows_of_exec {w w' : World core} {o : Op} {r : o.Res} (hd : DistinctIds w)
    (hf : FreshAccountId cfg w o)
    (ha : ∀ a patch, o = .accounts (.update a patch) → IsPatch patch)
    (he : o.exec cfg w = (.ok r, w')) : w'.accounts = w.accounts ∨ Wrote cfg w w' o := by
  have hrows : (o.exec cfg w).2.accounts = w'.accounts := by rw [he]
  rw [Op.exec_accounts] at hrows
  cases o with
  | accounts o =>
    cases o with
    | create data =>
      obtain ⟨rfl, hrows, hnew⟩ := Accounts.create_ok hf (Op.exec_of_accounts he)
      exact .inr (.create data hnew hrows)
    | update a patch =>
      obtain ⟨-, hrows⟩ := Accounts.update_ok hd (Op.exec_of_accounts he)
      exact .inr (.update a patch (ha a patch rfl) hrows)
    | _ => exact .inl hrows.symm
  | _ => exact .inl hrows.symm

theorem rows_of_error {w w' : World core} {o : Op} {e : HelixError}
    (he : o.exec cfg w = (.error e, w')) : w'.accounts = w.accounts := by
  have hrows : (o.exec cfg w).2.accounts = w'.accounts := by rw [he]
  rw [Op.exec_accounts] at hrows
  cases o with
  | accounts o =>
    have hexec := Op.exec_of_accounts he
    exact (AccountOp.exec_error hexec).1
  | _ => exact hrows.symm

theorem answered_mem {o : AccountOp} {res : o.Res} {kind : StorageDriverKind}
    {id : String} {now : ℕ}
    {rows rows' : List AccountRecord} {r : AccountRecord} (h : answered o res = some r)
    (he : o.exec kind id now rows = (.ok res, rows')) : r ∈ rows' := by
  cases o with
  | create data =>
    obtain rfl : res = r := Option.some.inj h
    simp only [AccountOp.exec, Accounts.create] at he
    split_ifs at he with _ _ hdrawn <;> cases he
    · exact List.mem_concat_self
    · -- the in-memory driver replaces the entry of the id
      obtain ⟨r₀, hr₀, hid⟩ := List.any_eq_true.1 hdrawn
      exact List.mem_map.2 ⟨r₀, hr₀, if_pos hid⟩
    · exact List.mem_concat_self
  | update a patch =>
    obtain rfl : res = r := Option.some.inj h
    simp only [AccountOp.exec, Accounts.update] at he
    split at he
    · cases he
    · rename_i r₀ hfound
      split_ifs at he <;> cases he
      have hid : (r₀.id == a) = true :=
        List.find?_some (p := fun r : AccountRecord => r.id == a) hfound
      exact List.mem_map.2 ⟨r₀, List.mem_of_find?_eq_some hfound, if_pos hid⟩
  | findById _ | findByEmail _ | findByGoogleId _ | findByEmailVerificationTokenHash _ =>
    cases he
    exact List.mem_of_find?_eq_some h

theorem shown_mem {e : Event (server cfg core)} {r : AccountRecord} {w : World core}
    (h : shown e = some r) (he : e.op.exec cfg e.pre = (.ok e.res, w)) : r ∈ w.accounts := by
  obtain ⟨o, res, pre⟩ := e
  cases o with
  | accounts o => exact answered_mem h (Op.exec_of_accounts he)
  | _ => cases h

/-- The last call that the task has made. -/
def lastCall (t : Task (server cfg core)) : Option Op := t.done.getLast?.map (·.op)

@[simp] theorem lastCall_resume {t : Task (server cfg core)} {w : World core} {o : Op} {res : o.Res}
    {p : Promise Reply} : lastCall (t.resume w o res p) = some o := by
  simp [lastCall]

section

variable {C : Discipline (server cfg core)} {w₀ : World core} {s s' : State cfg core}
  {l : Label (server cfg core)}

/-- **What a step does to the accounts.** -/
theorem step_rows (hob : (verification cfg core).protocol.Obeyed s) (hd : DistinctIds s.world)
    (hnew : NewAccounts s l) (hst : Step s l s') : s'.world.accounts = s.world.accounts ∨
      ∃ i o, l = .step i ∧ s.nextCall i = some o ∧ (∃ t ∈ s'.tasks, lastCall t = some o) ∧
        Wrote cfg s.world s'.world o := by
  cases hst with
  | start c => exact .inl rfl
  | env he => exact .inl (EnvMove.exec_accounts he)
  | fail ht hp hf => exact .inl rfl
  | reject ht hp he => exact .inl (rows_of_error he)
  | @call i t o k r w ht hp he =>
    have hnext := Sys.nextCall_eq ht hp
    have hallowed := hob.allowed ht hp
    have hlast : ∃ t' ∈ (s.put w i (t.resume s.world o r (k r))).tasks, lastCall t' = some o :=
      ⟨_, List.mem_of_getElem? ((Sys.put_getElem? ht).trans (if_pos rfl)), lastCall_resume⟩
    refine (rows_of_exec hd (hnew o hnext) ?_ he).imp_right fun hwrote =>
      ⟨i, o, rfl, hnext, hlast, hwrote⟩
    rintro a patch rfl
    exact hallowed

theorem Wrote.distinctIds {w w' : World core} {o : Op} (h : Wrote cfg w w' o) (hd : DistinctIds w) :
    DistinctIds w' := by
  cases h with
  | create data hnew hrows => exact hd.append hnew hrows
  | update a patch hpatch hrows =>
    rw [DistinctIds, hrows, List.map_map]
    have hids : (fun r : AccountRecord => r.id) ∘ Accounts.updateRow a patch w.now =
        fun r => r.id := funext fun r => Accounts.updateRow_id
    rw [hids]
    exact hd

theorem distinctIds_of_step (hob : (verification cfg core).protocol.Obeyed s)
    (hd : DistinctIds s.world) (hnew : NewAccounts s l) (hst : Step s l s') :
    DistinctIds s'.world := by
  rcases step_rows hob hd hnew hst with hrows | ⟨_, _, -, -, -, hwrote⟩
  · rw [DistinctIds, hrows]
    exact hd
  · exact hwrote.distinctIds hd

theorem distinctIds_of_run (hC : ∀ s l, C s l → NewAccounts s l) (hd : DistinctIds w₀)
    (h : Run C (Sys.init w₀) s) : DistinctIds s.world :=
  h.invariant (I := fun s => DistinctIds s.world) hd fun s l _ hr ih hl hst =>
    distinctIds_of_step (verification_kept.obeyed hr) ih (hC s l hl) hst

/-- Every account of `w` is still one of `w'`, with its e-mail, and verified if it was. -/
def Grown (w w' : World core) : Prop :=
  ∀ r ∈ w.accounts, ∃ r' ∈ w'.accounts, r'.id = r.id ∧ r'.email = r.email ∧
    (r.emailVerifiedAt.isSome = true → r'.emailVerifiedAt.isSome = true)

theorem Grown.refl (w : World core) : Grown w w := fun r hr => ⟨r, hr, rfl, rfl, id⟩

theorem Grown.trans {w w' w'' : World core} (h : Grown w w') (h' : Grown w' w'') :
    Grown w w'' := by
  intro r hr
  obtain ⟨r', hr', hid, hemail, hverified⟩ := h r hr
  obtain ⟨r'', hr'', hid', hemail', hverified'⟩ := h' r' hr'
  exact ⟨r'', hr'', hid'.trans hid, hemail'.trans hemail, hverified' ∘ hverified⟩

theorem IsPatch.grown {patch : AccountPatch} (h : IsPatch patch) (now : ℕ) (r : AccountRecord) :
    (r.patched patch now).email = r.email ∧
      (r.emailVerifiedAt.isSome = true → (r.patched patch now).emailVerifiedAt.isSome = true) := by
  cases h with
  | verified at_ => exact ⟨rfl, fun _ => rfl⟩
  | _ => exact ⟨rfl, id⟩

theorem Wrote.grown {w w' : World core} {o : Op} (h : Wrote cfg w w' o) : Grown w w' := by
  intro r hr
  cases h with
  | create data hnew hrows =>
    rw [hrows]
    exact ⟨r, List.mem_append_left _ hr, rfl, rfl, id⟩
  | update a patch hpatch hrows =>
    rw [hrows]
    refine ⟨_, List.mem_map_of_mem hr, Accounts.updateRow_id, ?_⟩
    unfold Accounts.updateRow
    split_ifs
    · exact hpatch.grown w.now r
    · exact ⟨rfl, id⟩

/-- **Accounts stay.**  Along a run an account keeps its id and its e-mail, and stays verified. -/
theorem grown_of_run (hC : ∀ s l, C s l → NewAccounts s l) (hd : DistinctIds w₀)
    (h : Run C (Sys.init w₀) s) (h' : Run C s s') : Grown s.world s'.world := by
  induction h' with
  | refl => exact .refl _
  | @tail s₁ s₂ hr hst ih =>
    obtain ⟨l, hl, hst⟩ := hst
    have hrun : Run C (Sys.init w₀) s₁ := h.trans hr
    refine ih.trans ?_
    rcases step_rows (verification_kept.obeyed hrun) (distinctIds_of_run hC hd hrun) (hC _ l hl) hst
      with hrows | ⟨_, _, -, -, -, hwrote⟩
    · intro r hr
      exact ⟨r, by rwa [hrows], rfl, rfl, id⟩
    · exact hwrote.grown

theorem Grown.of_id {w w' : World core} {r r' : AccountRecord} (h : Grown w w')
    (hd : DistinctIds w') (hr : r ∈ w.accounts) (hr' : r' ∈ w'.accounts) (hid : r'.id = r.id) :
    r'.email = r.email ∧ (r.emailVerifiedAt.isSome = true → r'.emailVerifiedAt.isSome = true) := by
  obtain ⟨r'', hr'', hid'', hgrown⟩ := h r hr
  obtain rfl := List.inj_on_of_nodup_map hd hr'' hr' (hid''.trans hid.symm)
  exact hgrown

variable {t : Task (server cfg core)} {e : Event (server cfg core)} {r : AccountRecord}

/-- What a call of a task has shown is stored, with the state in which it is. -/
theorem exists_shown (h : Run C (Sys.init w₀) s) (ht : t ∈ s.tasks) (he : e ∈ t.done)
    (hshown : shown e = some r) :
    ∃ s₁, Run C (Sys.init w₀) s₁ ∧ r ∈ s₁.world.accounts ∧ Run C s₁ s := by
  obtain ⟨es, es', hes⟩ := List.append_of_mem he
  obtain ⟨j, ht⟩ := List.mem_iff_getElem?.1 ht
  obtain ⟨s₁, s₂, t₁, k, hr, hc, hst, -, -, -, -, -, hexec, hr'⟩ := h.made rfl j t ht es e es' hes
  exact ⟨s₂, hr.trans (Lts.Run.single hc hst), shown_mem hshown hexec, hr'⟩

/-- An account that has been found has the e-mail that it has been found with. -/
theorem Found.email_eq (hC : ∀ s l, C s l → NewAccounts s l) (hd : DistinctIds w₀)
    (h : Run C (Sys.init w₀) s) (ht : t ∈ s.tasks) {a email : String}
    (hfound : Found t.done a email)
    (hr : r ∈ s.world.accounts) (hid : r.id = a) : r.email = email := by
  obtain ⟨e, he, r₁, hshown, rfl, rfl⟩ := hfound
  obtain ⟨s₁, h₁, hr₁, h₂⟩ := exists_shown h ht he hshown
  exact ((grown_of_run hC hd h₁ h₂).of_id (distinctIds_of_run hC hd h) hr₁ hr hid).1

end

end Verification

end HelixServer
