import HelixServer.Identity.Protocol

/-!
# Provisioned accounts

A session is for an account whose issuer identity is complete, provided that no call fails while an
account is created, between the insert of its row and the write of its DID
(`session_provisioned`).  A failure there leaves an account row without a DID, and a later sign-in
gives it a session (`session_unprovisioned`).

The proof: an account row has its identity or is in the making by the one running request
(`Covered.rows`), and a request signs in for a row it has found while none is in the making, or for
the row it has just finished.

## Main definitions

* `Ready w id` : the account has a DID, a stored document for it and a stored key that belong
  together.
* `Unbroken` : requests one after another, none of which fails while it creates an account.
-/

namespace HelixServer

namespace Identity

open Async

variable (cfg : Config) {core : Core}

/-- The account row `r` has the DID `did`, whose stored document `d` has the public key of the
private key that the stored key `k` of the account holds. -/
structure Provisioned (w : World core) (r : AccountRecord) (did : String) (d : DidRow)
    (k : IssuerKeyRecordRow) : Prop where
  issuerDid : r.issuerDid = some did
  published : w.dids.find? (·.id == did) = some d
  document : d.didDocument.id = did
  stored : w.issuerKeys.find? (·.accountId == r.id) = some k
  keyDid : k.did = did
  key : ∃ privateKey, decrypt cfg k.material = some (utf8 privateKey) ∧
    cfg.runtime.derivePublicKey privateKey = cfg.runtime.extractPublicKeyHex d.didDocument

/-- The account with this id is provisioned. -/
def Ready (w : World core) (id : String) : Prop :=
  ∃ r ∈ w.accounts, r.id = id ∧ ∃ did d k, Provisioned cfg w r did d k

/-- The rows with this id have no DID. -/
def Blank (w : World core) (id : String) : Prop :=
  ∀ r ∈ w.accounts, r.id = id → r.issuerDid = none

/-- The DID row of the account in the making is written. -/
def Published (w : World core) (a : AccountRecord) (k : KeyPair) : Prop :=
  ∃ d, w.dids.find? (·.id == didOf cfg a) = some d ∧ d.didDocument = documentOf cfg a k

/-- The key row of the account in the making is written. -/
def Stored (w : World core) (a : AccountRecord) (k : KeyPair) (iv : List UInt8) : Prop :=
  ∃ row, w.issuerKeys.find? (·.accountId == a.id) = some row ∧ row.did = didOf cfg a ∧
    row.material = encryptWith cfg iv k.privateKey

/-- What a stage says of the tables. -/
def Stage.Holds (w : World core) : Stage → Prop
  | .aside | .clear => True
  | .created a => Blank w a.id
  | .keyed a k | .sealed a k _ => Blank w a.id ∧ Drawn cfg k
  | .published a k _ => Blank w a.id ∧ Drawn cfg k ∧ Published cfg w a k
  | .stored a k iv => Blank w a.id ∧ Drawn cfg k ∧ Published cfg w a k ∧ Stored cfg w a k iv
  | .ready id => Ready cfg w id

variable {cfg} {w w' : World core} {q : Stage} {o : Op} {r : o.Res} {id : String}
  {a : AccountRecord}

theorem Blank.not_ready (h : Blank w id) : ¬ Ready cfg w id := by
  rintro ⟨r, hr, hid, did, d, k, hp⟩
  have hnone := h r hr hid
  rw [hp.issuerDid] at hnone
  cases hnone

/-! ### What a call does to the tables -/

/-- What a call that starts at stage `q` and leads to stage `q'` does to the tables. -/
structure Advances (cfg : Config) (w : World core) (q : Stage) (w' : World core) (q' : Stage) :
    Prop where
  distinct : DistinctIds w'
  ready : ∀ id, Ready cfg w id → Ready cfg w' id
  rows : ∀ r' ∈ w'.accounts, (∃ r ∈ w.accounts, r.id = r'.id) ∨
    ∃ a, q'.making = some a ∧ a.id = r'.id
  making : ∀ a, q.making = some a → q'.making = some a ∨ Ready cfg w' a.id
  holds : q'.Holds cfg w'

/-- The accounts are as they were, or patched without their ids and DIDs, and the identities are as
they were. -/
structure Same (w w' : World core) : Prop where
  accounts : ∃ f : AccountRecord → AccountRecord, w'.accounts = w.accounts.map f ∧
    ∀ r ∈ w.accounts, (f r).id = r.id ∧ (f r).issuerDid = r.issuerDid
  dids : w'.dids = w.dids
  issuerKeys : w'.issuerKeys = w.issuerKeys

theorem same_of_eq (ha : w'.accounts = w.accounts) (hd : w'.dids = w.dids)
    (hk : w'.issuerKeys = w.issuerKeys) : Same w w' :=
  ⟨⟨id, by simp [ha], fun _ _ => ⟨rfl, rfl⟩⟩, hd, hk⟩

theorem Same.ready (h : Same w w') (hr : Ready cfg w id) : Ready cfg w' id := by
  obtain ⟨f, hf, hkeep⟩ := h.accounts
  obtain ⟨r, hmem, hid, did, d, k, hp⟩ := hr
  obtain ⟨hid', hdid'⟩ := hkeep r hmem
  refine ⟨f r, by rw [hf]; exact List.mem_map_of_mem hmem, hid'.trans hid, did, d, k, ?_⟩
  exact ⟨hdid'.trans hp.issuerDid, by rw [h.dids]; exact hp.published, hp.document,
    by rw [h.issuerKeys, hid']; exact hp.stored, hp.keyDid, hp.key⟩

theorem Same.rows (h : Same w w') {r' : AccountRecord} (hr : r' ∈ w'.accounts) :
    ∃ r ∈ w.accounts, r.id = r'.id ∧ r.issuerDid = r'.issuerDid := by
  obtain ⟨f, hf, hkeep⟩ := h.accounts
  rw [hf] at hr
  obtain ⟨r, hmem, rfl⟩ := List.mem_map.1 hr
  exact ⟨r, hmem, (hkeep r hmem).1.symm, (hkeep r hmem).2.symm⟩

theorem Same.distinct (h : Same w w') (hd : DistinctIds w) : DistinctIds w' := by
  obtain ⟨f, hf, hkeep⟩ := h.accounts
  have hids : w'.accounts.map (·.id) = w.accounts.map (·.id) := by
    rw [hf, List.map_map]
    exact List.map_congr_left fun r hr => (hkeep r hr).1
  simpa only [DistinctIds, hids] using hd

theorem Same.blank (h : Same w w') (hb : Blank w id) : Blank w' id := by
  intro r' hr' hid
  obtain ⟨r, hr, hrid, hdid⟩ := h.rows hr'
  rw [← hdid]
  exact hb r hr (hrid.trans hid)

theorem updateRow_issuerDid {patch : AccountPatch} {now : ℕ} {r : AccountRecord}
    (hp : ∀ x ∈ patch, ∀ v, x ≠ .issuerDid v) :
    (Accounts.updateRow id patch now r).issuerDid = r.issuerDid := by
  unfold Accounts.updateRow
  split_ifs
  · refine AccountRecord.patched_field (fun _ => rfl) fun x hx r => ?_
    cases x with
    | issuerDid v => exact absurd rfl (hp _ hx v)
    | _ => rfl
  · rfl

theorem same_of_keeps (hd : DistinctIds w) (hk : KeepsIdentity o)
    (he : o.exec cfg w = (.ok r, w')) : Same w w' := by
  have hdids := @Op.exec_dids cfg core w o
  have hkeys := @Op.exec_issuerKeys cfg core w o
  have haccounts := @Op.exec_accounts cfg core w o
  rw [he] at hdids hkeys haccounts
  cases o with
  | accounts o =>
    cases o with
    | create data => exact hk.elim
    | update id patch =>
      obtain ⟨-, hrows⟩ := Accounts.update_ok hd (Op.exec_of_accounts he)
      exact ⟨⟨_, hrows, fun r hr => ⟨Accounts.updateRow_id, updateRow_issuerDid hk⟩⟩, hdids, hkeys⟩
    | _ => exact same_of_eq haccounts hdids hkeys
  | dids o => cases o <;> first | exact hk.elim | exact same_of_eq haccounts hdids hkeys
  | issuerKeys o => cases o <;> first | exact hk.elim | exact same_of_eq haccounts hdids hkeys
  | _ => exact same_of_eq haccounts hdids hkeys

theorem same_of_rejected {e : HelixError} (he : o.exec cfg w = (.error e, w')) : Same w w' := by
  have hdids := @Op.exec_dids cfg core w o
  have hkeys := @Op.exec_issuerKeys cfg core w o
  have haccounts := @Op.exec_accounts cfg core w o
  rw [he] at hdids hkeys haccounts
  cases o with
  | accounts o => exact same_of_eq (AccountOp.exec_error (Op.exec_of_accounts he)).1 hdids hkeys
  | dids o => exact same_of_eq haccounts (DidOp.exec_error (Op.exec_of_dids he)).1 hkeys
  | issuerKeys o =>
    exact same_of_eq haccounts hdids (IssuerKeyOp.exec_error (Op.exec_of_issuerKeys he)).1
  | _ => exact same_of_eq haccounts hdids hkeys

theorem Stage.Holds.of_same (h : q.Holds cfg w) (hs : Same w w') : q.Holds cfg w' := by
  have hpublished : ∀ {a k}, Published cfg w a k → Published cfg w' a k := fun hp => by
    rw [Published, hs.dids]; exact hp
  have hstored : ∀ {a k iv}, Stored cfg w a k iv → Stored cfg w' a k iv := fun hp => by
    rw [Stored, hs.issuerKeys]; exact hp
  cases q with
  | aside => trivial
  | clear => trivial
  | created a => exact hs.blank h
  | keyed a k => exact ⟨hs.blank h.1, h.2⟩
  | sealed a k iv => exact ⟨hs.blank h.1, h.2⟩
  | published a k iv => exact ⟨hs.blank h.1, h.2.1, hpublished h.2.2⟩
  | stored a k iv => exact ⟨hs.blank h.1, h.2.1, hpublished h.2.2.1, hstored h.2.2.2⟩
  | ready id => exact hs.ready h

/-- A call that leaves the tables alone, with what the new stage says in addition. -/
theorem advances_of_same {q' : Stage} (hd : DistinctIds w) (hs : Same w w')
    (hm : q'.making = q.making) (hq : q'.Holds cfg w') : Advances cfg w q w' q' where
  distinct := hs.distinct hd
  ready := fun _ => hs.ready
  rows := fun _ hr => .inl ((hs.rows hr).imp fun _ h => ⟨h.1, h.2.1⟩)
  making := fun _ ha => .inl (hm.trans ha)
  holds := hq

/-- The look-up of a sign-in: the account it finds is ready, since none is in the making. -/
theorem holds_found {found : Option AccountRecord} (hmem : ∀ r, found = some r → r ∈ w.accounts)
    (hclear : ∀ r ∈ w.accounts, Ready cfg w r.id) (hs : Same w w') :
    (Stage.found found).Holds cfg w' := by
  cases found with
  | none => trivial
  | some r => exact hs.ready (hclear r (hmem r rfl))

theorem advances_clear (hd : DistinctIds w) (hk : KeepsIdentity o)
    (he : o.exec cfg w = (.ok r, w')) (hclear : ∀ r ∈ w.accounts, Ready cfg w r.id) :
    Advances cfg w .clear w' (Stage.next .clear o r) := by
  have hs := same_of_keeps hd hk he
  have hfound : ∀ {found : Option AccountRecord}, (∀ r, found = some r → r ∈ w.accounts) →
      Advances cfg w .clear w' (.found found) := fun {found} hmem =>
    advances_of_same hd hs (by cases found <;> rfl) (holds_found hmem hclear hs)
  cases o with
  | accounts o =>
    cases o with
    | create data => exact hk.elim
    | findByEmail email => cases he; exact hfound fun r hr => List.mem_of_find?_eq_some hr
    | findByGoogleId googleId => cases he; exact hfound fun r hr => List.mem_of_find?_eq_some hr
    | _ => exact advances_of_same hd hs rfl trivial
  | _ => exact advances_of_same hd hs rfl trivial

theorem advances_create {data : AccountCreateData} {a : AccountRecord} (hd : DistinctIds w)
    (hf : FreshAccountId cfg w (.accounts (.create data)))
    (he : (Op.accounts (.create data)).exec cfg w = (.ok a, w')) :
    Advances cfg w .clear w' (.created a) := by
  obtain ⟨ha, hrows, hnew⟩ := Accounts.create_ok hf (Op.exec_of_accounts he)
  have hid : a.id = w.freshId cfg "acct" := by rw [ha]; rfl
  have hdids : w'.dids = w.dids := by
    have h := @Op.exec_dids cfg core w (.accounts (.create data)); rwa [he] at h
  have hkeys : w'.issuerKeys = w.issuerKeys := by
    have h := @Op.exec_issuerKeys cfg core w (.accounts (.create data)); rwa [he] at h
  refine ⟨?_, ?_, ?_, fun _ h => (by cases h), ?_⟩
  · exact hd.append (fun r hr => by rw [hid]; exact hnew r hr) hrows
  · rintro id ⟨r, hr, hrid, did, d, k, hp⟩
    exact ⟨r, by rw [hrows]; exact List.mem_append_left _ hr, hrid, did, d, k, hp.issuerDid,
      by rw [hdids]; exact hp.published, hp.document, by rw [hkeys]; exact hp.stored, hp.keyDid,
      hp.key⟩
  · intro r' hr'
    rw [hrows] at hr'
    rcases List.mem_append.1 hr' with hr' | hr'
    · exact .inl ⟨r', hr', rfl⟩
    · obtain rfl := List.mem_singleton.1 hr'
      exact .inr ⟨r', rfl, rfl⟩
  · intro r hr hrid
    rw [hrows] at hr
    rcases List.mem_append.1 hr with hr | hr
    · rw [hid] at hrid
      exact absurd hrid (hnew r hr)
    · obtain rfl := List.mem_singleton.1 hr
      rw [ha]; rfl

/-- The tables of accounts do not change while an identity is written. -/
theorem advances_write {q' : Stage} (hd : DistinctIds w) (haccounts : w'.accounts = w.accounts)
    (hq : q.making = some a) (hq' : q'.making = some a)
    (hready : ∀ r ∈ w.accounts, ∀ did d k, r.issuerDid ≠ none → Provisioned cfg w r did d k →
      Provisioned cfg w' r did d k)
    (hholds : q'.Holds cfg w') : Advances cfg w q w' q' := by
  refine ⟨by rw [DistinctIds, haccounts]; exact hd, ?_, ?_, ?_, hholds⟩
  · rintro id ⟨r, hr, hrid, did, d, k, hp⟩
    refine ⟨r, by rw [haccounts]; exact hr, hrid, did, d, k, hready r hr did d k ?_ hp⟩
    rw [hp.issuerDid]
    simp
  · intro r' hr'
    rw [haccounts] at hr'
    exact .inl ⟨r', hr', rfl⟩
  · intro a' ha'
    obtain rfl : a = a' := Option.some.inj (hq.symm.trans ha')
    exact .inl hq'

theorem Blank.of_accounts (h : Blank w id) (haccounts : w'.accounts = w.accounts) :
    Blank w' id := by
  rw [Blank, haccounts]; exact h

theorem advances_publish {k : KeyPair} {iv : List UInt8} {row : DidRow}
    {publicKeyMultibase : String}
    {u : Unit} (hd : DistinctIds w) (hq : (Stage.sealed a k iv).Holds cfg w)
    (hrow : row = issuerDidRow a.id (didOf cfg a) k.publicKey publicKeyMultibase
      (documentOf cfg a k))
    (he : (Op.dids (.createDid row)).exec cfg w = (.ok u, w')) :
    Advances cfg w (.sealed a k iv) w' (.published a k iv) := by
  obtain ⟨hnew, hold⟩ := DidOp.createDid_ok (Op.exec_of_dids he)
  have haccounts := @Op.exec_accounts cfg core w (.dids (.createDid row))
  have hkeys := @Op.exec_issuerKeys cfg core w (.dids (.createDid row))
  rw [he] at haccounts hkeys
  obtain ⟨hblank, hdrawn⟩ := hq
  subst hrow
  refine advances_write hd haccounts rfl rfl (fun r _ did d k _ hp => ?_)
    ⟨hblank.of_accounts haccounts, hdrawn, _, hnew, rfl⟩
  exact ⟨hp.issuerDid, hold did d hp.published, hp.document, by rw [hkeys]; exact hp.stored,
    hp.keyDid, hp.key⟩

theorem advances_store {k : KeyPair} {iv : List UInt8} {data : IssuerKeyCreateData}
    {row : IssuerKeyRecordRow} (hd : DistinctIds w) (hq : (Stage.published a k iv).Holds cfg w)
    (hdata : data = issuerKeyData a.id (didOf cfg a) (encryptWith cfg iv k.privateKey))
    (he : (Op.issuerKeys (.create data)).exec cfg w = (.ok row, w')) :
    Advances cfg w (.published a k iv) w' (.stored a k iv) := by
  obtain ⟨hrow, hnew, hold⟩ := IssuerKeys.create_ok (Op.exec_of_issuerKeys he)
  have haccounts := @Op.exec_accounts cfg core w (.issuerKeys (.create data))
  have hdids := @Op.exec_dids cfg core w (.issuerKeys (.create data))
  rw [he] at haccounts hdids
  obtain ⟨hblank, hdrawn, hpublished⟩ := hq
  subst hdata
  refine advances_write hd haccounts rfl rfl (fun r hr did d k hset hp => ?_)
    ⟨hblank.of_accounts haccounts, hdrawn, ?_, row, hnew, by rw [hrow]; rfl, by rw [hrow]; rfl⟩
  · have hne : r.id ≠ a.id := fun hid => hset (hblank r hr hid)
    exact ⟨hp.issuerDid, by rw [hdids]; exact hp.published, hp.document,
      (hold r.id hne).trans hp.stored, hp.keyDid, hp.key⟩
  · rw [Published, hdids]
    exact hpublished

theorem advances_setIssuerDid (hrt : Correct cfg) {k : KeyPair} {iv : List UInt8}
    {r : AccountRecord} (hd : DistinctIds w) (hq : (Stage.stored a k iv).Holds cfg w)
    (he : (Op.accounts (.update a.id [.issuerDid (some (didOf cfg a))])).exec cfg w = (.ok r, w')) :
    Advances cfg w (.stored a k iv) w' (.ready a.id) := by
  obtain ⟨⟨r₀, hr₀, hid₀, -⟩, hrows⟩ := Accounts.update_ok hd (Op.exec_of_accounts he)
  have hdids := @Op.exec_dids cfg core w
    (.accounts (.update a.id [.issuerDid (some (didOf cfg a))]))
  have hkeys := @Op.exec_issuerKeys cfg core w
    (.accounts (.update a.id [.issuerDid (some (didOf cfg a))]))
  rw [he] at hdids hkeys
  obtain ⟨hblank, ⟨draw, rfl⟩, ⟨d, hpub, hdoc⟩, row, hstored, hrowDid, hmaterial⟩ := hq
  have hready : Ready cfg w' a.id := by
    refine ⟨_, by rw [hrows]; exact List.mem_map_of_mem hr₀, by simpa using hid₀,
      didOf cfg a, d, row, ?_, by rw [hdids]; exact hpub, ?_, ?_, hrowDid,
      (cfg.runtime.generateKeyPair draw).privateKey, ?_, ?_⟩
    · simp [Accounts.updateRow, hid₀, AccountRecord.patched, AccountAssign.apply]
    · rw [hdoc]; exact hrt.documentId _ _
    · rw [Accounts.updateRow_id, hid₀, hkeys]; exact hstored
    · rw [hmaterial]; exact decrypt_encryptWith hrt.gcm _ _
    · rw [hdoc, documentOf, hrt.documentKey]; exact hrt.keyPair draw
  refine ⟨?_, ?_, ?_, ?_, hready⟩
  · simpa [DistinctIds, hrows, List.map_map, Function.comp_def] using hd
  · rintro id ⟨r, hr, hrid, did, d, k, hp⟩
    have hne : r.id ≠ a.id := by
      intro hid
      have hnone := hblank r hr hid
      rw [hp.issuerDid] at hnone
      cases hnone
    refine ⟨r, ?_, hrid, did, d, k, hp.issuerDid, by rw [hdids]; exact hp.published, hp.document,
      by rw [hkeys]; exact hp.stored, hp.keyDid, hp.key⟩
    rw [hrows]
    exact List.mem_map.2 ⟨r, hr, by simp [Accounts.updateRow, hne]⟩
  · intro r' hr'
    rw [hrows] at hr'
    obtain ⟨r₁, hr₁, rfl⟩ := List.mem_map.1 hr'
    exact .inl ⟨r₁, hr₁, Accounts.updateRow_id.symm⟩
  · intro a' ha'
    cases ha'
    exact .inr hready

theorem advances_call (hrt : Correct cfg) (hd : DistinctIds w) (hq : q.Holds cfg w)
    (ha : q.Allows cfg o) (hf : FreshAccountId cfg w o)
    (hclear : q.making = none → ∀ r ∈ w.accounts, Ready cfg w r.id)
    (he : o.exec cfg w = (.ok r, w')) : Advances cfg w q w' (q.next o r) := by
  cases q with
  | aside =>
    have hk : KeepsIdentity o := by cases o <;> exact ha
    exact advances_of_same hd (same_of_keeps hd hk he) rfl trivial
  | ready id =>
    have hk : KeepsIdentity o := by cases o <;> exact ha
    have hs := same_of_keeps hd hk he
    exact advances_of_same hd hs rfl (hs.ready hq)
  | clear =>
    by_cases hc : ∃ data, o = .accounts (.create data)
    · obtain ⟨data, rfl⟩ := hc
      exact advances_create hd hf he
    · have hk : KeepsIdentity o := by
        cases o with
        | accounts o => cases o <;> first | exact absurd ⟨_, rfl⟩ hc | exact ha
        | _ => exact ha
      exact advances_clear hd hk he (hclear rfl)
  | created a =>
    cases o with
    | runtime o =>
      cases o <;> first | exact ha.elim | skip
      have hs := same_of_keeps (o := .runtime .generateKeyPair) hd trivial he
      exact advances_of_same hd hs rfl ⟨hs.blank hq, w.draws, by cases he; rfl⟩
    | _ => exact ha.elim
  | keyed a k =>
    cases o with
    | runtime o =>
      cases o <;> first | exact ha.elim | skip
      have hs := same_of_keeps (o := .runtime (.randomBytes _)) hd trivial he
      exact advances_of_same hd hs rfl ⟨hs.blank hq.1, hq.2⟩
    | _ => exact ha.elim
  | sealed a k iv =>
    cases o with
    | dids o =>
      cases o <;> first | exact ha.elim | skip
      obtain ⟨_, hrow⟩ := ha
      exact advances_publish hd hq hrow he
    | _ => exact ha.elim
  | published a k iv =>
    cases o with
    | issuerKeys o =>
      cases o <;> first | exact ha.elim | skip
      exact advances_store hd hq ha he
    | _ => exact ha.elim
  | stored a k iv =>
    cases o with
    | accounts o =>
      cases o <;> first | exact ha.elim | skip
      obtain ⟨rfl, rfl⟩ := ha
      exact advances_setIssuerDid hrt hd hq he
    | _ => exact ha.elim

/-! ### Requests one after another -/

section System

variable {s s' : State cfg core} {i : ℕ} {t t' : Task (server cfg core)}

/-- Where a request stands. -/
abbrev stageOf (t : Task (server cfg core)) : Stage := (protocol cfg core).state t

/-- Request `i` has inserted its account row and not yet written the account's DID to it. -/
def Creating (s : State cfg core) (i : ℕ) : Prop :=
  ∃ t, s.tasks[i]? = some t ∧ (stageOf t).making.isSome = true

instance (s : State cfg core) (i : ℕ) : Decidable (Creating s i) :=
  decidable_of_iff ((s.tasks[i]?.any fun t => (stageOf t).making.isSome) = true)
    (by simp [Creating, Option.any_eq_true])

/-- Requests are executed one after another. -/
def Sequential : Discipline (server cfg core) := fun s l =>
  match l with
  | .start _ => s.Idle
  | _ => True

instance (s : State cfg core) (l : Label (server cfg core)) : Decidable (Sequential s l) :=
  match l with
  | .start _ => inferInstanceAs (Decidable s.Idle)
  | .step _ | .fail _ | .env _ => .isTrue trivial

/-- Requests are executed one after another, and no call of a request that creates an account fails
between the insert of the account row and the write of its DID. -/
def Unbroken : Discipline (server cfg core) := fun s l =>
  match l with
  | .start _ => s.Idle
  | .step i => ∀ o ∈ s.nextCall i, FreshAccountId cfg s.world o ∧
      (Creating s i → (o.exec cfg s.world).1.isOk = true)
  | .fail i => ¬ Creating s i
  | .env _ => True

instance (s : State cfg core) (l : Label (server cfg core)) : Decidable (Unbroken s l) :=
  match l with
  | .start _ => inferInstanceAs (Decidable s.Idle)
  | .step i => inferInstanceAs (Decidable (∀ o ∈ s.nextCall i, FreshAccountId cfg s.world o ∧
      (Creating s i → (o.exec cfg s.world).1.isOk = true)))
  | .fail i => inferInstanceAs (Decidable (¬ Creating s i))
  | .env _ => .isTrue trivial

theorem making_eq_none (ht : s.tasks[i]? = some t) (hc : ¬ Creating s i) :
    (stageOf t).making = none := by
  by_contra hne
  exact hc ⟨t, ht, Option.isSome_iff_ne_none.2 hne⟩

theorem protocol_sound (hrt : Correct cfg) :
    (protocol cfg core).Sound Unbroken where
  prog := obeys_prog hrt
  reject := by
    intro s i t o k e w hc ht hp _ he
    refine making_eq_none ht fun hcreating => ?_
    have hok := (hc o (Sys.nextCall_eq ht hp)).2 hcreating
    rw [show (o.exec cfg s.world).1 = .error e from congrArg Prod.fst he] at hok
    cases hok
  fail := fun _ _ _ _ _ hc ht _ _ => making_eq_none ht hc

theorem running_of_making (h : (protocol cfg core).Follows t) {a : AccountRecord}
    (ha : (stageOf t).making = some a) : t.running = true := by
  have hne : (stageOf t).making ≠ none := by rw [ha]; simp
  rcases h with ⟨-, hf⟩ | h
  · exact absurd hf hne
  · cases hp : t.prog with
    | call o k => exact Task.running_of_call hp
    | raise e => rw [hp] at h; exact absurd h hne
    | pure reply =>
      rw [hp] at h
      have hans : (stageOf t).Answers reply := h
      generalize stageOf t = q at ha hans
      cases q <;> cases ha <;> cases reply <;> cases hans

/-- What holds after every step: rows are ready or in the making by the running request. -/
structure Covered (s : State cfg core) : Prop where
  serial : s.Serial
  distinct : DistinctIds s.world
  rows : ∀ r ∈ s.world.accounts, Ready cfg s.world r.id ∨
    ∃ t ∈ s.tasks, ∃ a, (stageOf t).making = some a ∧ a.id = r.id
  holds : ∀ t ∈ s.tasks, (stageOf t).Holds cfg s.world

/-- The request that has an account in the making is the running one. -/
theorem Covered.eq_of_making (hc : Covered s) (ho : (protocol cfg core).Obeyed s)
    (ht : s.tasks[i]? = some t) (hr : t.running = true) {t₁ : Task (server cfg core)}
    (ht₁ : t₁ ∈ s.tasks) {a : AccountRecord} (ha : (stageOf t₁).making = some a) : t₁ = t := by
  obtain ⟨j, hj, htj⟩ := List.mem_iff_getElem.1 ht₁
  have hj' : s.tasks[j]? = some t₁ := List.getElem?_eq_some_iff.2 ⟨hj, htj⟩
  obtain rfl := hc.serial i j t t₁ ht hj' hr (running_of_making (ho t₁ ht₁) ha)
  exact Option.some.inj (hj'.symm.trans ht)

theorem Stage.Holds.mono {w w' : World core} {q : Stage} (h : q.Holds cfg w)
    (hq : q.making = none) (hready : ∀ id, Ready cfg w id → Ready cfg w' id) : q.Holds cfg w' := by
  cases q with
  | aside => trivial
  | clear => trivial
  | ready id => exact hready id h
  | _ => cases hq

theorem Covered.put (hc : Covered s) (ho : (protocol cfg core).Obeyed s)
    (ht : s.tasks[i]? = some t) (hr : t.running = true) {w' : World core}
    (hadv : Advances cfg s.world (stageOf t) w' (stageOf t'))
    (hserial : (s.put w' i t').Serial) : Covered (s.put w' i t') := by
  have hnew : t' ∈ (s.put w' i t').tasks :=
    List.mem_of_getElem? (((Sys.put_getElem? ht).trans (if_pos rfl) : _ = some t'))
  refine ⟨hserial, hadv.distinct, fun r' hr' => ?_, fun t₁ ht₁ => ?_⟩
  · rcases hadv.rows r' hr' with ⟨r, hmem, hid⟩ | ⟨a, ha, hid⟩
    · rw [← hid]
      rcases hc.rows r hmem with hready | ⟨t₁, ht₁, a, ha, haid⟩
      · exact .inl (hadv.ready _ hready)
      · obtain rfl := hc.eq_of_making ho ht hr ht₁ ha
        rcases hadv.making a ha with ha' | hready
        · exact .inr ⟨t', hnew, a, ha', haid⟩
        · exact .inl (haid ▸ hready)
    · exact .inr ⟨t', hnew, a, ha, hid⟩
  · obtain ⟨j, hj, htj⟩ := List.mem_iff_getElem.1 ht₁
    have hj' : (s.put w' i t').tasks[j]? = some t₁ := List.getElem?_eq_some_iff.2 ⟨hj, htj⟩
    rw [Sys.put_getElem? ht] at hj'
    by_cases hij : i = j
    · rw [if_pos hij] at hj'
      cases hj'
      exact hadv.holds
    · -- another request is not running, so it has no account in the making
      rw [if_neg hij] at hj'
      have hmem := List.mem_of_getElem? hj'
      refine (hc.holds t₁ hmem).mono ?_ hadv.ready
      by_contra hne
      obtain ⟨a, ha⟩ := Option.ne_none_iff_exists'.1 hne
      exact hij (hc.serial i j t t₁ ht hj' hr (running_of_making (ho t₁ hmem) ha))

/-- **Every step keeps accounts covered.** -/
theorem Covered.step (hrt : Correct cfg) (hc : Covered s)
    (ho : (protocol cfg core).Obeyed s) {l : Label (server cfg core)} (hl : Unbroken s l)
    (hst : Step s l s') : Covered s' := by
  have hserial : s'.Serial := hst.serial hc.serial fun c hstart => by subst hstart; exact hl
  cases hst with
  | start c =>
    refine ⟨hserial, hc.distinct, fun r hr => ?_, fun t ht => ?_⟩
    · exact (hc.rows r hr).imp_right fun ⟨t, ht, h⟩ => ⟨t, List.mem_append_left _ ht, h⟩
    · rcases List.mem_append.1 ht with ht | ht
      · exact hc.holds t ht
      · obtain rfl := List.mem_singleton.1 ht
        cases c <;> trivial
  | @env x w he =>
    have hframe := EnvMove.exec_frame he
    have hs : Same s.world w := by rw [hframe]; exact same_of_eq rfl rfl rfl
    refine ⟨hserial, hs.distinct hc.distinct, fun r hr => ?_, fun t ht =>
      (hc.holds t ht).of_same hs⟩
    obtain ⟨r₀, hr₀, hid, -⟩ := hs.rows hr
    rw [← hid]
    exact (hc.rows r₀ hr₀).imp_left hs.ready
  | @call i t o k r w ht hp he =>
    have hrun := Task.running_of_call hp
    refine hc.put ho ht hrun ?_ hserial
    have hstage : stageOf (t.resume s.world o r (k r)) = (stageOf t).next o r :=
      Protocol.state_resume t s.world o r (k r)
    rw [hstage]
    refine advances_call hrt hc.distinct (hc.holds t (List.mem_of_getElem? ht)) (ho.allowed ht hp)
      (hl o (Sys.nextCall_eq ht hp)).1 (fun hnone r hr => ?_) he
    refine (hc.rows r hr).resolve_right ?_
    rintro ⟨t₁, ht₁, a, ha, -⟩
    obtain rfl := hc.eq_of_making ho ht hrun ht₁ ha
    rw [hnone] at ha
    cases ha
  | @reject i t o k e w ht hp he =>
    refine hc.put ho ht (Task.running_of_call hp) ?_ hserial
    have hs := same_of_rejected he
    exact advances_of_same hc.distinct hs rfl ((hc.holds t (List.mem_of_getElem? ht)).of_same hs)
  | @fail i t o k ht hp hf =>
    refine hc.put ho ht (Task.running_of_call hp) ?_ hserial
    exact advances_of_same hc.distinct (same_of_eq rfl rfl rfl) rfl
      (hc.holds t (List.mem_of_getElem? ht))

theorem covered_of_run (hrt : Correct cfg) {w₀ : World core} (hw : w₀.accounts = [])
    (h : Run Unbroken (Sys.init w₀ : State cfg core) s) :
    (protocol cfg core).Obeyed s ∧ Covered s := by
  have ho : ∀ {s}, Run Unbroken (Sys.init w₀) s → (protocol cfg core).Obeyed s := fun h =>
    Protocol.obeys_of_run (protocol_sound hrt) (Protocol.obeyed_init w₀) h
  refine ⟨ho h, h.invariant ?_ fun _ _ _ hrun ih hl hst => ih.step hrt (ho hrun) hl hst⟩
  refine ⟨?_, ?_, ?_, ?_⟩ <;> simp [Sys.init, Sys.Serial, DistinctIds, hw]

/-- Every session that has been answered is for a provisioned account. -/
def SessionsProvisioned (s : State cfg core) : Prop :=
  ∀ t ∈ s.tasks, ∀ account tokens, t.prog = .pure (.session account tokens) →
    Ready cfg s.world account.id

/-- **No session without an issuer identity.**  In every run of requests one after another in which
no call fails while a request creates an account, every session is for a provisioned account. -/
theorem session_provisioned (hrt : Correct cfg) {w₀ : World core} (hw : w₀.accounts = [])
    (h : Run Unbroken (Sys.init w₀ : State cfg core) s) : SessionsProvisioned s := by
  intro t ht account tokens hp
  obtain ⟨ho, hc⟩ := covered_of_run hrt hw h
  obtain ⟨i, hi, hti⟩ := List.mem_iff_getElem.1 ht
  have hstage : stageOf t = .ready account.id :=
    ho.answers (List.getElem?_eq_some_iff.2 ⟨hi, hti⟩) hp
  have hholds := hc.holds t ht
  rw [hstage] at hholds
  exact hholds

end System

/-! ### Runs of the sample server -/

theorem correct_sample : Correct Config.sample where
  keyPair := fun _ => rfl
  documentId := fun _ _ => rfl
  documentKey := fun _ _ => rfl
  documentMethods := fun _ _ => List.cons_ne_nil _ _
  gcm := fun _ _ => rfl

/-- Request `i` has been given a session for the account `account`. -/
def SessionFor (s : State cfg core) (i : ℕ) (account : AccountSummary) : Prop :=
  ∃ t tokens, s.tasks[i]? = some t ∧ t.prog = .pure (.session account tokens)

/-- The account that request `i` has been given a session for. -/
def sessionAccount (s : State cfg core) (i : ℕ) : Option AccountSummary :=
  (s.tasks[i]?).bind fun t => match t.prog with
    | .pure (.session account _) => some account
    | _ => none

theorem sessionFor_of_eq {s : State cfg core} {i : ℕ} {account : AccountSummary}
    (h : sessionAccount s i = some account) : SessionFor s i account := by
  obtain ⟨t, ht, hp⟩ := Option.bind_eq_some_iff.1 h
  split at hp <;> cases hp
  exact ⟨t, _, ht, ‹_›⟩

theorem SessionFor.ready {s : State cfg core} {i : ℕ} {account : AccountSummary}
    (h : SessionFor s i account) (hs : SessionsProvisioned s) : Ready cfg s.world account.id := by
  obtain ⟨t, tokens, ht, hp⟩ := h
  exact hs t (List.mem_of_getElem? ht) account tokens hp

theorem session_provisioned_google : ∃ (s : State Config.sample Core.sample) (a : AccountSummary),
    SessionFor s 0 a ∧ SessionsProvisioned s := by
  obtain ⟨s, h, hp⟩ := exists_run_of_replay (C := Unbroken) (s := Sys.init World.sample)
    sampleSignIn (fun s => (sessionAccount s 0).isSome) (by decide)
  obtain ⟨a, ha⟩ := Option.isSome_iff_exists.1 hp
  exact ⟨s, a, sessionFor_of_eq ha, session_provisioned correct_sample rfl h⟩

/-- A registration whose write of the DID document is rejected, and a login to its account. -/
def brokenRegistration : List (Label (server Config.sample Core.sample)) :=
  .start (.register ⟨"a@b.c", "pw", none, none⟩) :: List.replicate 5 (.step 0) ++ .fail 0 ::
    .start (.login ⟨"a@b.c", "pw"⟩) :: List.replicate 8 (.step 1)

/-- **An account without a DID is signed in.** -/
theorem session_unprovisioned : ∃ s : State Config.sample Core.sample,
    Run Sequential (Sys.init .sample) s ∧ ¬ SessionsProvisioned s := by
  obtain ⟨s, h, hp⟩ := exists_run_of_replay (C := Sequential) (s := Sys.init World.sample)
    brokenRegistration (fun s => (sessionAccount s 1).any fun a : AccountSummary =>
      decide (∀ r ∈ s.world.accounts, r.id = a.id → r.issuerDid = none)) (by decide)
  obtain ⟨a, ha, hp⟩ := (Option.any_eq_true _ _).1 hp
  have hblank : Blank s.world a.id := fun r hr hid => (of_decide_eq_true hp) r hr hid
  exact ⟨s, h, fun hs => hblank.not_ready ((sessionFor_of_eq ha).ready hs)⟩

end Identity

end HelixServer
