import HelixServer.Ownership.Links
import Mathlib.Logic.Relation

/-!
# Renewed credentials have no owner

The route that renews a credential links the new one to nobody, where the routes that create
credentials link what they create.  So a credential that comes from a renewal has no owner, and the
owner of a credential is kept by its renewals exactly as long as it is never renewed
(`renewal_keeps_owner_iff`).

## Main definitions

* `Renewed s v v'` : a request has renewed `v`, and the new credential is `v'`.
* `FreshVcs` : no call is rejected, and the core gives every credential a new id.
-/

namespace HelixServer

namespace Ownership

open Async Relation

variable {cfg : Config} {core : Core}

/-- The credential that a call renews, and the new one. -/
def renewal : (o : Op) → o.Res → Option (String × String)
  | .vcs (.renewVC vcId _ _), newId => some (vcId, newId)
  | _, _ => none

/-- A request has renewed the credential `v`, and the new one is `v'`. -/
def Renewed (s : State cfg core) (v v' : String) : Prop :=
  ∃ t ∈ s.tasks, ∃ e ∈ t.done, renewal e.op e.res = some (v, v')

/-- The credential comes from a renewal. -/
def FromRenewal (s : State cfg core) (v : String) : Prop :=
  ∃ t ∈ s.tasks, ∃ e ∈ t.done, (renewal e.op e.res).map (·.2) = some v

instance (s : State cfg core) (v : String) : Decidable (FromRenewal s v) :=
  inferInstanceAs (Decidable (∃ t ∈ s.tasks, ∃ e ∈ t.done, _ = _))

theorem Renewed.fromRenewal {s : State cfg core} {v v' : String} (h : Renewed s v v') :
    FromRenewal s v' := by
  obtain ⟨t, ht, e, he, hr⟩ := h
  exact ⟨t, ht, e, he, by rw [hr]; rfl⟩

/-! ### What is assumed -/

/-- The new credential of a renewal. -/
def renewedId (core : Core) (st : core.State) (vcId : String) (overrides : Json)
    (requestId : String) : Option String :=
  (core.vcs (.renewVC vcId overrides requestId) st).1.toOption

/-- A new credential has an id that no credential has, created or renewed. -/
def VcFresh (s : State cfg core) : Op → Prop
  | .core o => ∀ r ∈ (core.exec o s.world.core).1.toOption, ¬ Created s (creates o, r) ∧
      (creates o = .vcAccountLinks → ¬ FromRenewal s r)
  | .vcs (.renewVC vcId overrides requestId) =>
    ∀ r ∈ renewedId core s.world.core vcId overrides requestId,
      ¬ Created s (.vcAccountLinks, r) ∧ ¬ FromRenewal s r
  | _ => True

/-- No call is rejected from outside the model, and the core gives every credential a new id. -/
def FreshVcs : Discipline (server cfg core) := fun s l =>
  match l with
  | .step i => ∀ o ∈ s.nextCall i, VcFresh s o
  | .fail _ => False
  | _ => True

instance (s : State cfg core) : DecidablePred (VcFresh s) :=
  Op.Decides.decide
    { core := fun _ =>
        inferInstanceAs (Decidable (∀ r ∈ _, ¬ Created s _ ∧ (_ → ¬ FromRenewal s r)))
      vcs := fun o =>
        match o with
        | .renewVC _ _ _ =>
          inferInstanceAs (Decidable (∀ r ∈ _, ¬ Created s _ ∧ ¬ FromRenewal s r))
        | .listVCs _ | .revokeVC _ _ => .isTrue trivial }

instance (s : State cfg core) (l : Label (server cfg core)) : Decidable (FreshVcs s l) :=
  match l with
  | .step i => inferInstanceAs (Decidable (∀ o ∈ s.nextCall i, VcFresh s o))
  | .fail _ => .isFalse id
  | .start _ | .env _ => .isTrue trivial

theorem fresh_of_freshVcs {s : State cfg core} {l : Label (server cfg core)} (h : FreshVcs s l) :
    Fresh s l := by
  cases l with
  | step i =>
    intro o ho
    have hvc := h o ho
    cases o with
    | core o => exact fun r hr => (hvc r hr).1
    | _ => trivial
  | _ => trivial

/-! ### Renewed credentials are not linked -/

section System

variable {s s' : State cfg core} {l : Label (server cfg core)}
  {t : Task (server cfg core)} {v : String}

/-- A credential that comes from a renewal after a step did so before, or is what it answers. -/
theorem fromRenewal_step (hst : Step s l s') (h : FromRenewal s' v) :
    FromRenewal s v ∨ ∃ i u overrides requestId, l = .step i ∧
      s.nextCall i = some (.vcs (.renewVC u overrides requestId)) ∧
        renewedId core s.world.core u overrides requestId = some v := by
  rcases hst.exists_task (p := fun t => ∃ e ∈ t.done, (renewal e.op e.res).map (·.2) = some v)
    (fun _ h => by obtain ⟨e, he, -⟩ := h; cases he) (fun _ _ h => h) h with
    h | ⟨i, t, o, k, r, w, rfl, ht, hp, he, e, hmem, hr⟩
  · exact .inl h
  rcases List.mem_append.1 hmem with hmem | hmem
  · exact .inl ⟨t, List.mem_of_getElem? ht, e, hmem, hr⟩
  obtain rfl := List.mem_singleton.1 hmem
  have hnext := Sys.nextCall_eq ht hp
  cases o with
  | vcs o =>
    cases o with
    | renewVC u overrides requestId =>
      have hans : (core.vcs (.renewVC u overrides requestId) s.world.core).1 = .ok r :=
        congrArg Prod.fst he
      exact .inr ⟨i, u, overrides, requestId, rfl, hnext, by rw [renewedId, hans]; exact hr⟩
    | _ => cases hr
  | _ => cases hr

theorem Traced.coreOp_eq (h : Traced t) {c : CoreOp} (ha : (stageOf t).Allows cfg (.core c)) :
    coreOp t.call = some c := by
  rw [← h.op]
  generalize stageOf t = q at ha
  cases q with
  | gated o | holding o owner => exact congrArg some (Eq.symm ha)
  | known o a found => exact congrArg some ha.1.symm
  | aside => rcases ha with (h | h) | h <;> exact h.elim
  | _ => exact ha.elim

/-- A credential that is created after a step was so before, or is what the core call answers. -/
theorem Linking.created_step (hk : Linking s) (ho : (protocol cfg core).relax.Obeyed s)
    (hst : Step s l s') {x : AccountLinkTable × String} (h : Created s' x) :
    Created s x ∨ ∃ i c, l = .step i ∧ s.nextCall i = some (.core c) ∧ creates c = x.1 ∧
      (core.exec c s.world.core).1 = .ok x.2 := by
  rcases hst.exists_task (p := (CreatedBy · x)) (fun _ h => nomatch h.2) (fun _ _ h => h) h with
    h | ⟨i, t, o, k, r, w, rfl, ht, hp, he, hop, hresult⟩
  · exact .inl h
  rw [coreResult_resume] at hresult
  cases hc : coreResult t with
  | some y =>
    rw [hc] at hresult
    exact .inl ⟨t, List.mem_of_getElem? ht, hop, hc.trans hresult⟩
  | none =>
    rw [hc, Option.none_or] at hresult
    cases o with
    | core c =>
      have hcall := (hk.traced t (List.mem_of_getElem? ht)).coreOp_eq (ho.allowed ht hp)
      have hans : (core.exec c s.world.core).1 = .ok r := congrArg Prod.fst he
      have hx : r = x.2 := Option.some.inj hresult
      rw [show coreOp (t.resume s.world (.core c) r (k r)).call = some c from hcall] at hop
      exact .inr ⟨i, c, rfl, Sys.nextCall_eq ht hp, Option.some.inj hop, by rw [hans, hx]⟩
    | _ => cases hresult

variable {w₀ : World core}

/-- **No request has created a credential that comes from a renewal.** -/
theorem not_created_of_run (hinj : Function.Injective cfg.runtime.hashToken)
    (hids : ∀ r ∈ w₀.accounts, r.id ≠ "") (hlinks : ∀ table, w₀.links table = [])
    (h : Run FreshVcs (Sys.init w₀ : State cfg core) s) :
    ∀ v, FromRenewal s v → ¬ Created s (.vcAccountLinks, v) := by
  refine h.invariant (I := fun s => ∀ v, FromRenewal s v → ¬ Created s (.vcAccountLinks, v)) ?_ ?_
  · rintro v ⟨t, ht, -⟩
    cases ht
  intro s l s' hr ih hl hst v hv hc
  obtain ⟨ho, hk⟩ := linking_of_run hinj hids hlinks (hr.mono fun _ _ => fresh_of_freshVcs)
  rcases hk.created_step ho hst hc with hc | ⟨i, c, rfl, hnext, hcreates, hans⟩
  · rcases fromRenewal_step hst hv with hv | ⟨i, u, overrides, requestId, rfl, hnext, hans⟩
    · exact ih v hv hc
    · exact (hl _ hnext v hans).1 hc
  · rcases fromRenewal_step hst hv with hv | ⟨j, u, overrides, requestId, hj, hnext', -⟩
    · exact (hl _ hnext v (by rw [hans]; rfl)).2 hcreates hv
    · -- a step is one call
      obtain rfl : i = j := Label.step.inj hj
      rw [hnext] at hnext'
      cases hnext'

/-- **Renewal does not keep the owner.**  In every run in which no call is rejected, the renewals of
a credential, however many, have its owner exactly as long as no credential with an owner has been
renewed: what comes from a renewal has no owner, is on no account's list, and no account's token
revokes it. -/
theorem renewal_keeps_owner_iff (hinj : Function.Injective cfg.runtime.hashToken)
    (hids : ∀ r ∈ w₀.accounts, r.id ≠ "") (hlinks : ∀ table, w₀.links table = [])
    (h : Run FreshVcs (Sys.init w₀ : State cfg core) s) :
    ((∀ v a, owner s v = some a → ∀ v', ReflTransGen (Renewed s) v v' → owner s v' = some a) ↔
      ∀ v, owner s v ≠ none → ∀ v', ¬ Renewed s v v') ∧
    ∀ v v', Renewed s v v' → owner s v' = none ∧
      ∀ a, v' ∉ AccountLinks.listKeysForAccount a s.world.vcAccountLinks := by
  obtain ⟨ho, hk⟩ := linking_of_run hinj hids hlinks (h.mono fun _ _ => fresh_of_freshVcs)
  have hnone : ∀ v v', Renewed s v v' → owner s v' = none := by
    intro v v' hv
    by_contra hne
    obtain ⟨a, ha⟩ := Option.ne_none_iff_exists'.1 hne
    obtain ⟨t, ht, hmakes, -⟩ := (hk.links (.vcAccountLinks, v') a).1 ha
    exact not_created_of_run hinj hids hlinks h v' hv.fromRenewal (hk.created_iff.2 ⟨t, ht, hmakes⟩)
  refine ⟨⟨fun hkeep v hv v' hrenewed => ?_, fun hnever v a ha v' hv' => ?_⟩, fun v v' hv =>
    ⟨hnone v v' hv, fun a hmem => ?_⟩⟩
  · obtain ⟨a, ha⟩ := Option.ne_none_iff_exists'.1 hv
    have howned := hkeep v a ha v' (.single hrenewed)
    rw [hnone v v' hrenewed] at howned
    cases howned
  · -- the chain of renewals is empty
    rcases hv'.cases_head with rfl | ⟨u, hu, -⟩
    · exact ha
    · exact absurd hu (hnever v (by rw [ha]; nofun) u)
  · exact AccountLinks.getAccountId_ne_none hmem (hnone v v' hv)

end System

/-! ### A renewed credential -/

/-- The hosted configuration, with an operator. -/
def operatorConfig : Config := { Config.sampleHosted with adminApiKey := some "key" }

/-- A request with the key of the operator. -/
def operatorRequest : Request := ⟨"op", [("x-admin-api-key", .one "key")]⟩

/-- A task has renewed `v`, and the new credential is `v'`. -/
def hasRenewed (s : State cfg core) (v v' : String) : Bool :=
  s.tasks.any fun t => t.done.any fun e => decide (renewal e.op e.res = some (v, v'))

theorem renewed_iff {s : State cfg core} {v v' : String} :
    hasRenewed s v v' = true ↔ Renewed s v v' := by
  simp [hasRenewed, Renewed]

/-- No credential with an owner has been renewed. -/
def ownedUnrenewed (s : State cfg core) : Bool :=
  s.tasks.all fun t => t.done.all fun e =>
    (renewal e.op e.res).all fun x => decide (owner s x.1 = none)

theorem not_renewed_of_ownedUnrenewed {s : State cfg core}
    (h : ownedUnrenewed s = true) {v : String}
    (hv : owner s v ≠ none) (v' : String) : ¬ Renewed s v v' := by
  rintro ⟨t, ht, e, he, hr⟩
  have hall := List.all_eq_true.1 (List.all_eq_true.1 h t ht) e he
  rw [hr] at hall
  exact hv (of_decide_eq_true hall)

/-- The account asks for a credential, and the operator renews `v`. -/
def issueAndRenew (v : String) : List (Label (server operatorConfig Core.sample)) :=
  .start (.issueVC sampleRequest .null) :: List.replicate 5 (.step 0) ++
    [.start (.renewVC operatorRequest v .null), .step 1]

/-- **The renewal of a credential of the account** has no owner. -/
theorem renewal_loses_owner : ∃ s : State operatorConfig Core.sample,
    Run FreshVcs (Sys.init .sampleHosted) s ∧ Renewed s "vc:0" "vc:1" ∧
      owner s "vc:0" = some "acct:1" ∧ owner s "vc:1" = none := by
  obtain ⟨s, h, hp⟩ := exists_run_of_replay (C := FreshVcs)
    (s := (Sys.init .sampleHosted : State operatorConfig Core.sample)) (issueAndRenew "vc:0")
    (fun s => hasRenewed s "vc:0" "vc:1" &&
      decide (owner s "vc:0" = some "acct:1" ∧ owner s "vc:1" = none)) (by decide)
  obtain ⟨hrenewed, hp⟩ := Bool.and_eq_true_iff.1 hp
  exact ⟨s, h, renewed_iff.1 hrenewed, of_decide_eq_true hp⟩

/-- The renewal of a credential that no account owns. -/
theorem renewal_keeps_owner_iff_unowned : ∃ s : State operatorConfig Core.sample,
    Run FreshVcs (Sys.init .sampleHosted) s ∧ Renewed s "vc:9" "vc:1" ∧
      owner s "vc:0" = some "acct:1" ∧
      ∀ v', ReflTransGen (Renewed s) "vc:0" v' → owner s v' = some "acct:1" := by
  obtain ⟨s, h, hp⟩ := exists_run_of_replay (C := FreshVcs)
    (s := (Sys.init .sampleHosted : State operatorConfig Core.sample)) (issueAndRenew "vc:9")
    (fun s => hasRenewed s "vc:9" "vc:1" && (ownedUnrenewed s &&
      decide (owner s "vc:0" = some "acct:1"))) (by decide)
  obtain ⟨hrenewed, hp⟩ := Bool.and_eq_true_iff.1 hp
  obtain ⟨hnever, howner⟩ := Bool.and_eq_true_iff.1 hp
  have howned : owner s "vc:0" = some "acct:1" := of_decide_eq_true howner
  obtain ⟨hiff, -⟩ := renewal_keeps_owner_iff (fun _ _ h => h) (by decide)
    (by rintro (_ | _ | _) <;> rfl) h
  exact ⟨s, h, renewed_iff.1 hrenewed, howned,
    hiff.2 (fun _ => not_renewed_of_ownedUnrenewed hnever) "vc:0" "acct:1" howned⟩

end Ownership

end HelixServer
