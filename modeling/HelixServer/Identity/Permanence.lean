import HelixServer.Async.Tenure
import HelixServer.Custody.Sign
import HelixServer.Identity.Provisioning
import HelixServer.Integrity.References
import HelixServer.Routes.AccountDid

/-!
# Identities are for good

A creation that is broken off leaves an account without a DID, and other requests may sign it in
meanwhile.  But an account that has a DID has all of its identity, in every interleaving and
whatever is rejected: its document is served, and the key custody signs for it (`identity_of_run`).
None of it ever changes.

The proof: the request that has created an account holds it until it has written the DID, and what
the others do leaves the account's row, document and key alone.

* `Issued cfg w r did d k` : the identity of an account.
* `Whole cfg w` : every account with a DID has its identity.
* `tenure` : the accounts in the making are held by the requests that make them.
-/

namespace HelixServer

open Async

namespace Identity

open Integrity

variable (cfg : Config) {core : Core}

/-- The account row `r` has the DID of its account, whose stored document `d` has the public key of
a generated key pair, and the stored key `k` of the account is the private one, encrypted. -/
structure Issued (w : World core) (r : AccountRecord) (did : String) (d : DidRow)
    (k : IssuerKeyRecordRow) : Prop where
  issuerDid : r.issuerDid = some did
  did_eq : did = buildAccountIssuerDid cfg.didDomain r.id
  published : w.dids.find? (·.id == did) = some d
  stored : w.issuerKeys.find? (·.accountId == r.id) = some k
  keyDid : k.did = did
  pair : ∃ draw iv,
    d.didDocument = cfg.runtime.buildDIDDocument did (cfg.runtime.generateKeyPair draw).publicKey ∧
      k.material = encryptWith cfg iv (cfg.runtime.generateKeyPair draw).privateKey

/-- Account ids are distinct, and every account with a DID has its identity. -/
structure Whole (w : World core) : Prop where
  distinct : DistinctIds w
  issued : ∀ r ∈ w.accounts, ∀ did, r.issuerDid = some did → ∃ d k, Issued cfg w r did d k

/-- There is an account with this id, without a DID. -/
def Bare (w : World core) (id : String) : Prop := HasAccount w id ∧ Blank w id

/-- What a request may rely on while it makes an identity. -/
def Stage.Stands (w : World core) : Stage → Prop
  | .created a => Bare w a.id
  | .keyed a k | .sealed a k _ => Bare w a.id ∧ Drawn cfg k
  | .published a k _ => Bare w a.id ∧ Drawn cfg k ∧ Published cfg w a k
  | .stored a k iv => Bare w a.id ∧ Drawn cfg k ∧ Published cfg w a k ∧ Stored cfg w a k iv
  | _ => True

/-- The DID of the account's row, the stored DIDs and the account's key are left alone. -/
structure Leaves (w w' : World core) (id : String) : Prop where
  rows : ∀ r ∈ w.accounts, r.id = id → ∃ r' ∈ w'.accounts, r'.id = id ∧ r'.issuerDid = r.issuerDid
  back : ∀ r' ∈ w'.accounts, r'.id = id → ∃ r ∈ w.accounts, r.id = id ∧ r'.issuerDid = r.issuerDid
  dids : ∀ did d, w.dids.find? (·.id == did) = some d → w'.dids.find? (·.id == did) = some d
  key : ∀ k, w.issuerKeys.find? (·.accountId == id) = some k →
    w'.issuerKeys.find? (·.accountId == id) = some k

/-- The accounts in the making are held by the requests that make them. -/
def tenure (core : Core) : Tenure (server cfg core) Stage String where
  owns q := q.making.map (·.id)
  used := HasAccount
  relies q w := q.Stands cfg w
  leaves := Leaves

variable {cfg} {w w' : World core} {q q' : Stage} {r r' : AccountRecord} {a : AccountRecord}
  {id did : String} {d : DidRow} {k : IssuerKeyRecordRow}

/-! ### What is left alone -/

theorem leaves_of_same (h : Same w w') : Leaves w w' id := by
  obtain ⟨f, hf, hkeep⟩ := h.accounts
  refine ⟨fun r hr hid => ?_, fun r' hr' hid => ?_, fun _ _ hd => ?_, fun _ hk => ?_⟩
  · exact ⟨f r, by rw [hf]; exact List.mem_map_of_mem hr, (hkeep r hr).1.trans hid, (hkeep r hr).2⟩
  · obtain ⟨r, hr, hrid, hdid⟩ := h.rows hr'
    exact ⟨r, hr, hrid.trans hid, hdid.symm⟩
  · rw [h.dids]; exact hd
  · rw [h.issuerKeys]; exact hk

theorem leaves_of_accounts (h : w'.accounts = w.accounts)
    (hdids : ∀ did d, w.dids.find? (·.id == did) = some d → w'.dids.find? (·.id == did) = some d)
    (hkey : ∀ k, w.issuerKeys.find? (·.accountId == id) = some k →
      w'.issuerKeys.find? (·.accountId == id) = some k) : Leaves w w' id :=
  ⟨fun r hr hid => ⟨r, by rw [h]; exact hr, hid, rfl⟩,
    fun r hr hid => ⟨r, by rw [← h]; exact hr, hid, rfl⟩, hdids, hkey⟩

theorem Leaves.bare (h : Leaves w w' id) (hb : Bare w id) : Bare w' id := by
  obtain ⟨⟨r, hr, hid⟩, hblank⟩ := hb
  obtain ⟨r', hr', hid', -⟩ := h.rows r hr hid
  refine ⟨⟨r', hr', hid'⟩, fun r₁ hr₁ hid₁ => ?_⟩
  obtain ⟨r₀, hr₀, hid₀, hdid⟩ := h.back r₁ hr₁ hid₁
  exact hdid.trans (hblank r₀ hr₀ hid₀)

theorem Issued.of_leaves (h : Issued cfg w r did d k) (hl : Leaves w w' r.id) (hid : r'.id = r.id)
    (hdid : r'.issuerDid = r.issuerDid) : Issued cfg w' r' did d k where
  issuerDid := hdid.trans h.issuerDid
  did_eq := by rw [hid]; exact h.did_eq
  published := hl.dids did d h.published
  stored := by rw [hid]; exact hl.key k h.stored
  keyDid := h.keyDid
  pair := h.pair

/-- Every account with a DID has been left alone, or has just got its identity. -/
theorem Whole.of_leaves (h : Whole cfg w) (hd : DistinctIds w')
    (hrows : ∀ r' ∈ w'.accounts, ∀ did, r'.issuerDid = some did →
      Leaves w w' r'.id ∨ ∃ d k, Issued cfg w' r' did d k) : Whole cfg w' where
  distinct := hd
  issued := by
    intro r' hr' did hdid
    rcases hrows r' hr' did hdid with hl | hnew
    · obtain ⟨r, hr, hid, hsame⟩ := hl.back r' hr' rfl
      obtain ⟨d, k, hi⟩ := h.issued r hr did (hsame.symm.trans hdid)
      exact ⟨d, k, hi.of_leaves (hid ▸ hl) hid.symm hsame⟩
    · exact hnew

theorem Whole.of_same (h : Whole cfg w) (hs : Same w w') : Whole cfg w' :=
  h.of_leaves (hs.distinct h.distinct) fun _ _ _ _ => .inl (leaves_of_same hs)

theorem Issued.ne_of_blank (h : Issued cfg w r did d k) (hr : r ∈ w.accounts) (hb : Blank w id) :
    r.id ≠ id := by
  intro hid
  have hnone := hb r hr hid
  rw [h.issuerDid] at hnone
  cases hnone

theorem Stage.Stands.bare (h : q.Stands cfg w) (ha : q.making = some a) : Bare w a.id := by
  cases q with
  | created a | keyed a k => cases ha; first | exact h | exact h.1
  | sealed a k iv | published a k iv | stored a k iv => cases ha; exact h.1
  | _ => cases ha

/-- What a request relies on is left alone with the account it makes. -/
theorem Stage.Stands.of_leaves (h : q.Stands cfg w) (ha : q.making = some a)
    (hl : Leaves w w' a.id) : q.Stands cfg w' := by
  have hbare := hl.bare (h.bare ha)
  have hpublished : ∀ {k}, Published cfg w a k → Published cfg w' a k := fun ⟨d, hd, hdoc⟩ =>
    ⟨d, hl.dids _ _ hd, hdoc⟩
  cases q with
  | created a => cases ha; exact hbare
  | keyed a k | sealed a k iv => cases ha; exact ⟨hbare, h.2⟩
  | published a k iv => cases ha; exact ⟨hbare, h.2.1, hpublished h.2.2⟩
  | stored a k iv =>
    cases ha
    obtain ⟨row, hrow, hdid⟩ := h.2.2.2
    exact ⟨hbare, h.2.1, hpublished h.2.2.1, row, hl.key _ hrow, hdid⟩
  | _ => cases ha

/-! ### The calls of a request -/

section Calls

variable {o : Op} {res : o.Res}

theorem turn_of_same (hw : Whole cfg w) (hs : Same w w') (hm : q'.making = q.making)
    (hq : q'.Stands cfg w') : (tenure cfg core).Turn (Whole cfg) q w q' w' where
  inv := hw.of_same hs
  relies := hq
  others := fun _ _ _ => leaves_of_same hs
  own := fun id hown => .inl (by simpa [tenure, hm] using hown)

theorem Stage.stands_of_none (h : q.making = none) : q.Stands cfg w := by
  cases q <;> trivial

theorem leaves_create (hrows : w'.accounts = w.accounts ++ [a]) (hdids : w'.dids = w.dids)
    (hkeys : w'.issuerKeys = w.issuerKeys) (hid : a.id ≠ id) : Leaves w w' id := by
  refine ⟨fun r hr hrid => ⟨r, by rw [hrows]; exact List.mem_append_left _ hr, hrid, rfl⟩,
    fun r' hr' hrid => ?_, fun _ _ hd => by rw [hdids]; exact hd,
    fun _ hk => by rw [hkeys]; exact hk⟩
  rw [hrows] at hr'
  rcases List.mem_append.1 hr' with hr' | hr'
  · exact ⟨r', hr', hrid, rfl⟩
  · obtain rfl := List.mem_singleton.1 hr'
    exact absurd hrid hid

theorem turn_create {data : AccountCreateData} (hw : Whole cfg w)
    (hf : FreshAccountId cfg w (.accounts (.create data)))
    (he : (Op.accounts (.create data)).exec cfg w = (.ok a, w')) :
    (tenure cfg core).Turn (Whole cfg) .clear w (.created a) w' := by
  obtain ⟨ha, hrows, hnew⟩ := Accounts.create_ok hf (Op.exec_of_accounts he)
  have hid : a.id = w.freshId cfg "acct" := by rw [ha]; rfl
  have hblank : a.issuerDid = none := by rw [ha]; rfl
  have hdids := @Op.exec_dids cfg core w (.accounts (.create data))
  have hkeys := @Op.exec_issuerKeys cfg core w (.accounts (.create data))
  rw [he] at hdids hkeys
  have hunused : ¬ HasAccount w a.id := fun ⟨r, hr, hrid⟩ => hnew r hr (hrid.trans hid)
  have hmem : a ∈ w'.accounts := by rw [hrows]; simp
  have hdistinct : DistinctIds w' :=
    hw.distinct.append (fun r hr => by rw [hid]; exact hnew r hr) hrows
  refine ⟨hw.of_leaves hdistinct fun r' hr' did hdid => ?_, ⟨⟨a, hmem, rfl⟩, ?_⟩, ?_, ?_⟩
  · rw [hrows] at hr'
    rcases List.mem_append.1 hr' with hr' | hr'
    · exact .inl (leaves_create hrows hdids hkeys fun h => hunused ⟨r', hr', h.symm⟩)
    · obtain rfl := List.mem_singleton.1 hr'
      rw [hblank] at hdid
      cases hdid
  · intro r hr hrid
    rw [hrows] at hr
    rcases List.mem_append.1 hr with hr | hr
    · exact absurd ⟨r, hr, hrid⟩ hunused
    · obtain rfl := List.mem_singleton.1 hr
      exact hblank
  · intro k hk _
    exact leaves_create hrows hdids hkeys fun h => hunused (h ▸ hk)
  · intro k hk
    obtain rfl : a.id = k := by simpa [tenure, Stage.making] using hk
    exact .inr hunused

/-- A call that writes a part of the identity of the account in the making. -/
theorem turn_write (hw : Whole cfg w) (haccounts : w'.accounts = w.accounts)
    (hq : q.making = some a) (hq' : q'.making = some a) (hblank : Blank w a.id)
    (hleaves : ∀ id, id ≠ a.id → Leaves w w' id) (hstands : q'.Stands cfg w') :
    (tenure cfg core).Turn (Whole cfg) q w q' w' := by
  refine ⟨hw.of_leaves (by rw [DistinctIds, haccounts]; exact hw.distinct) ?_, hstands, ?_, ?_⟩
  · intro r' hr' did hdid
    rw [haccounts] at hr'
    obtain ⟨d, k, hi⟩ := hw.issued r' hr' did hdid
    exact .inl (hleaves _ (hi.ne_of_blank hr' hblank))
  · intro id _ hown
    refine hleaves id fun h => hown ?_
    rw [h]
    exact congrArg (Option.map AccountRecord.id) hq
  · intro id hown
    refine .inl ?_
    have hsame : (tenure cfg core).owns q' = (tenure cfg core).owns q :=
      congrArg (Option.map AccountRecord.id) (hq'.trans hq.symm)
    exact hsame ▸ hown

theorem turn_publish {k : KeyPair} {iv : List UInt8} {row : DidRow} {publicKeyMultibase : String}
    {u : Unit} (hw : Whole cfg w) (hq : (Stage.sealed a k iv).Stands cfg w)
    (hrow : row = issuerDidRow a.id (didOf cfg a) k.publicKey publicKeyMultibase
      (documentOf cfg a k))
    (he : (Op.dids (.createDid row)).exec cfg w = (.ok u, w')) :
    (tenure cfg core).Turn (Whole cfg) (.sealed a k iv) w (.published a k iv) w' := by
  obtain ⟨hnew, hold⟩ := DidOp.createDid_ok (Op.exec_of_dids he)
  have haccounts := @Op.exec_accounts cfg core w (.dids (.createDid row))
  have hkeys := @Op.exec_issuerKeys cfg core w (.dids (.createDid row))
  rw [he] at haccounts hkeys
  have hleaves : ∀ id, Leaves w w' id := fun id =>
    leaves_of_accounts haccounts hold fun _ hk => by rw [hkeys]; exact hk
  subst hrow
  exact turn_write hw haccounts rfl rfl hq.1.2 (fun id _ => hleaves id)
    ⟨(hleaves a.id).bare hq.1, hq.2, _, hnew, rfl⟩

theorem turn_store {k : KeyPair} {iv : List UInt8} {data : IssuerKeyCreateData}
    {row : IssuerKeyRecordRow} (hw : Whole cfg w) (hq : (Stage.published a k iv).Stands cfg w)
    (hdata : data = issuerKeyData a.id (didOf cfg a) (encryptWith cfg iv k.privateKey))
    (he : (Op.issuerKeys (.create data)).exec cfg w = (.ok row, w')) :
    (tenure cfg core).Turn (Whole cfg) (.published a k iv) w (.stored a k iv) w' := by
  obtain ⟨hrow, hnew, hold⟩ := IssuerKeys.create_ok (Op.exec_of_issuerKeys he)
  have haccounts := @Op.exec_accounts cfg core w (.issuerKeys (.create data))
  have hdids := @Op.exec_dids cfg core w (.issuerKeys (.create data))
  rw [he] at haccounts hdids
  have hsame : ∀ did d, w.dids.find? (·.id == did) = some d →
      w'.dids.find? (·.id == did) = some d := fun _ _ hd => by rw [hdids]; exact hd
  subst hdata
  obtain ⟨⟨⟨r, hr, hid⟩, hblank⟩, hdrawn, d, hd, hdoc⟩ := hq
  refine turn_write hw haccounts rfl rfl hblank (fun id hne => ?_)
    ⟨⟨⟨r, by rw [haccounts]; exact hr, hid⟩, hblank.of_accounts haccounts⟩, hdrawn,
      ⟨d, hsame _ _ hd, hdoc⟩, row, hnew, by rw [hrow]; rfl, by rw [hrow]; rfl⟩
  exact leaves_of_accounts haccounts hsame fun _ hk => (hold id hne).trans hk

theorem turn_setIssuerDid {k : KeyPair} {iv : List UInt8} {r : AccountRecord} (hw : Whole cfg w)
    (hq : (Stage.stored a k iv).Stands cfg w)
    (he : (Op.accounts (.update a.id [.issuerDid (some (didOf cfg a))])).exec cfg w = (.ok r, w')) :
    (tenure cfg core).Turn (Whole cfg) (.stored a k iv) w (.ready a.id) w' := by
  obtain ⟨-, hrows⟩ := Accounts.update_ok hw.distinct (Op.exec_of_accounts he)
  have hdids := @Op.exec_dids cfg core w
    (.accounts (.update a.id [.issuerDid (some (didOf cfg a))]))
  have hkeys := @Op.exec_issuerKeys cfg core w
    (.accounts (.update a.id [.issuerDid (some (didOf cfg a))]))
  rw [he] at hdids hkeys
  obtain ⟨-, ⟨draw, rfl⟩, ⟨d, hd, hdoc⟩, row, hrow, hrowDid, hmaterial⟩ := hq
  -- the rows of other accounts are not patched
  have hkeep : ∀ r, r.id ≠ a.id →
      Accounts.updateRow a.id [.issuerDid (some (didOf cfg a))] w.now r = r := fun r hne => by
    simp [Accounts.updateRow, hne]
  have hleaves : ∀ id, id ≠ a.id → Leaves w w' id := by
    intro id hne
    refine ⟨fun r hr hid => ⟨r, ?_, hid, rfl⟩, fun r' hr' hid => ?_,
      fun _ _ hd => by rw [hdids]; exact hd, fun _ hk => by rw [hkeys]; exact hk⟩
    · rw [hrows]
      exact List.mem_map.2 ⟨r, hr, hkeep r (hid ▸ hne)⟩
    · rw [hrows] at hr'
      obtain ⟨r, hr, rfl⟩ := List.mem_map.1 hr'
      rw [Accounts.updateRow_id] at hid
      exact ⟨r, hr, hid, by rw [hkeep r (hid ▸ hne)]⟩
  refine ⟨hw.of_leaves ?_ fun r' hr' did hdid => ?_, trivial, fun id _ hown => ?_, fun _ hown => ?_⟩
  · simpa [DistinctIds, hrows, List.map_map, Function.comp_def] using hw.distinct
  · by_cases hid : r'.id = a.id
    · rw [hrows] at hr'
      obtain ⟨r, hr, rfl⟩ := List.mem_map.1 hr'
      rw [Accounts.updateRow_id] at hid
      obtain rfl : didOf cfg a = did := by
        simpa [Accounts.updateRow, hid, AccountRecord.patched, AccountAssign.apply] using hdid
      exact .inr ⟨d, row, hdid, by rw [Accounts.updateRow_id, hid]; rfl, by rw [hdids]; exact hd,
        by rw [Accounts.updateRow_id, hid, hkeys]; exact hrow, hrowDid, draw, iv, hdoc, hmaterial⟩
    · exact .inl (hleaves _ hid)
  · exact hleaves id fun h => hown (by rw [h]; rfl)
  · cases hown

/-- **Every allowed call is a turn.** -/
theorem turn_call (hw : Whole cfg w) (hq : q.Stands cfg w) (ha : q.Allows cfg o)
    (hf : FreshAccountId cfg w o) (he : o.exec cfg w = (.ok res, w')) :
    (tenure cfg core).Turn (Whole cfg) q w (q.next o res) w' := by
  have hkeep : KeepsIdentity o → (q.next o res).making = none → q.making = none →
      (tenure cfg core).Turn (Whole cfg) q w (q.next o res) w' := fun hk hm hnone =>
    turn_of_same hw (same_of_keeps hw.distinct hk he) (hm.trans hnone.symm)
      (Stage.stands_of_none hm)
  cases q with
  | aside => exact hkeep (by cases o <;> exact ha) rfl rfl
  | ready id => exact hkeep (by cases o <;> exact ha) rfl rfl
  | clear =>
    by_cases hc : ∃ data, o = .accounts (.create data)
    · obtain ⟨data, rfl⟩ := hc
      exact turn_create hw hf he
    · cases o with
      | accounts o =>
        cases o with
        | create data => exact absurd ⟨data, rfl⟩ hc
        | findByEmail email | findByGoogleId googleId =>
          exact hkeep ha (by cases res <;> rfl) rfl
        | _ => exact hkeep ha rfl rfl
      | _ => exact hkeep ha rfl rfl
  | created a =>
    cases o with
    | runtime o =>
      cases o <;> first | exact ha.elim | skip
      have hs := same_of_keeps (o := .runtime .generateKeyPair) hw.distinct trivial he
      refine turn_of_same hw hs rfl ⟨(leaves_of_same hs).bare hq, w.draws, ?_⟩
      cases he
      rfl
    | _ => exact ha.elim
  | keyed a k =>
    cases o with
    | runtime o =>
      cases o <;> first | exact ha.elim | skip
      have hs := same_of_keeps (o := .runtime (.randomBytes _)) hw.distinct trivial he
      exact turn_of_same hw hs rfl ⟨(leaves_of_same hs).bare hq.1, hq.2⟩
    | _ => exact ha.elim
  | sealed a k iv =>
    cases o with
    | dids o =>
      cases o <;> first | exact ha.elim | skip
      obtain ⟨_, hrow⟩ := ha
      exact turn_publish hw hq hrow he
    | _ => exact ha.elim
  | published a k iv =>
    cases o with
    | issuerKeys o =>
      cases o <;> first | exact ha.elim | skip
      exact turn_store hw hq ha he
    | _ => exact ha.elim
  | stored a k iv =>
    cases o with
    | accounts o =>
      cases o <;> first | exact ha.elim | skip
      obtain ⟨rfl, rfl⟩ := ha
      exact turn_setIssuerDid hw hq he
    | _ => exact ha.elim

end Calls

/-! ### Every interleaving -/

section System

variable {P : World core → Op → Prop}

/-- The account with this id has this identity. -/
def HasIssued (cfg : Config) (id did : String) (d : DidRow) (k : IssuerKeyRecordRow)
    (w : World core) : Prop :=
  ∃ r ∈ w.accounts, r.id = id ∧ Issued cfg w r did d k

theorem HasIssued.of_leaves (h : HasIssued cfg id did d k w) (hl : Leaves w w' id) :
    HasIssued cfg id did d k w' := by
  obtain ⟨r, hr, rfl, hi⟩ := h
  obtain ⟨r', hr', hid, hdid⟩ := hl.rows r hr rfl
  exact ⟨r', hr', hid, hi.of_leaves hl hid hdid⟩

theorem same_of_env {x : EnvMove} (he : x.exec w = some w') : Same w w' := by
  rw [EnvMove.exec_frame he]
  exact same_of_eq rfl rfl rfl

theorem tenure_sound (hP : ∀ w o, P w o → FreshAccountId cfg w o) :
    (tenure cfg core).Sound (protocol cfg core).relax (Whole cfg) P where
  start c := by cases c <;> rfl
  idle q w hnone := Stage.stands_of_none (Option.map_eq_none_iff.1 hnone)
  used q w id hown hq := by
    obtain ⟨a, ha, rfl⟩ := Option.map_eq_some_iff.1 hown
    exact (hq.bare ha).1
  frame q w w' id hown hq hl := by
    obtain ⟨a, ha, rfl⟩ := Option.map_eq_some_iff.1 hown
    exact hq.of_leaves ha hl
  call q o w res w' hw hq ha hp he := turn_call hw hq ha (hP w o hp) he
  reject o w e w' hw he :=
    have hs := same_of_rejected he
    ⟨hw.of_same hs, fun _ => leaves_of_same hs⟩
  env x w w' hw he :=
    have hs := same_of_env he
    ⟨hw.of_same hs, fun _ => leaves_of_same hs⟩

theorem tenure_sound_issued (hP : ∀ w o, P w o → FreshAccountId cfg w o) :
    (tenure cfg core).Sound (protocol cfg core).relax
      (fun w => Whole cfg w ∧ HasIssued cfg id did d k w) P where
  start := (tenure_sound hP).start
  idle := (tenure_sound hP).idle
  used := (tenure_sound hP).used
  frame := (tenure_sound hP).frame
  call q o w res w' hw hq ha hp he := by
    have hturn := turn_call hw.1 hq ha (hP w o hp) he
    obtain ⟨r, hr, hid, hi⟩ := hw.2
    have hl := hturn.others id ⟨r, hr, hid⟩ fun hown => by
      obtain ⟨a, ha, haid⟩ := Option.map_eq_some_iff.1 hown
      exact hi.ne_of_blank hr (hq.bare ha).2 (hid.trans haid.symm)
    exact ⟨⟨hturn.inv, hw.2.of_leaves hl⟩, hturn.relies, hturn.others, hturn.own⟩
  reject o w e w' hw he :=
    have h := (tenure_sound hP).reject o w e w' hw.1 he
    ⟨⟨h.1, hw.2.of_leaves (h.2 id)⟩, h.2⟩
  env x w w' hw he :=
    have h := (tenure_sound hP).env x w w' hw.1 he
    ⟨⟨h.1, hw.2.of_leaves (h.2 id)⟩, h.2⟩

variable {s s' : State cfg core} {w₀ : World core}

theorem held_of_run (hrt : Correct cfg) (hP : ∀ w o, P w o → FreshAccountId cfg w o)
    (hw : Whole cfg w₀) (h : Run (Stepwise P) (Sys.init w₀) s) :
    (tenure cfg core).Held (protocol cfg core).relax (Whole cfg) s :=
  Tenure.held_of_run (tenure_sound hP) (Protocol.relax_obeyed (obeys_prog hrt))
    (Tenure.held_init hw) h

/-- **An identity is for good.** -/
theorem issued_of_run (hrt : Correct cfg) (hP : ∀ w o, P w o → FreshAccountId cfg w o)
    (hw : Whole cfg w₀) (h : Run (Stepwise P) (Sys.init w₀) s)
    (hi : HasIssued cfg id did d k s.world) (h' : Run (Stepwise P) s s') :
    HasIssued cfg id did d k s'.world := by
  have hheld := held_of_run hrt hP hw h
  refine (Tenure.held_of_run (tenure_sound_issued hP) (fun hr => ?_)
    ⟨⟨hheld.inv, hi⟩, hheld.relies, hheld.apart⟩ h').inv.2
  exact Protocol.relax_obeyed (obeys_prog hrt) (h.trans hr)

/-- The custody signs with the key of an identity, and the signature is one of its document. -/
theorem Issued.signs (hrt : Correct cfg) {scheme : SignatureScheme}
    (hsigns : Custody.Signs cfg.runtime scheme) {w : World core} (h : Issued cfg w r did d k)
    (data : String) : ∃ signature, sign cfg scheme data k.material = some signature ∧
      scheme.verifies data signature (cfg.runtime.extractPublicKeyHex d.didDocument) = true := by
  obtain ⟨draw, iv, hdoc, hmaterial⟩ := h.pair
  obtain ⟨signature, hsign, hverifies⟩ := hsigns draw data
  refine ⟨signature, ?_, ?_⟩
  · rw [sign, hmaterial, decrypt_encryptWith hrt.gcm, Option.bind_some, utf8,
      Codec.decodeUtf8_encode]
    exact hsign
  · rw [hdoc, hrt.documentKey]
    exact hverifies

end System

end Identity

end HelixServer
