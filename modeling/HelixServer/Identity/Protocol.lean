import HelixServer.Footprint

/-!
# How a sign-in comes by an account

A sign-in finds an account or creates one.  A new account is given its issuer identity in five
calls: a key pair, an initialisation vector, the DID row, the key row, and the DID in the account
row.

## Main definitions

* `Stage` : where a request stands with the account it signs in.
* `KeepsIdentity` : calls that write no account row and nothing of an identity.
* `protocol` : the calls of every request in terms of its stage.  A session is answered only for
  an account that the request has found or has finished to provision.
-/

namespace HelixServer

namespace Identity

open Async

/-- Where a request stands with the account it signs in. -/
inductive Stage where
  /-- It signs no one in. -/
  | aside
  /-- A sign-in that has no account yet. -/
  | clear
  | created (a : AccountRecord)
  | keyed (a : AccountRecord) (k : KeyPair)
  | sealed (a : AccountRecord) (k : KeyPair) (iv : List UInt8)
  /-- The DID row is written. -/
  | published (a : AccountRecord) (k : KeyPair) (iv : List UInt8)
  /-- The key row is written. -/
  | stored (a : AccountRecord) (k : KeyPair) (iv : List UInt8)
  /-- A sign-in for the account with this id. -/
  | ready (id : String)

/-- The account a request has created and not yet given its DID. -/
def Stage.making : Stage → Option AccountRecord
  | .created a | .keyed a _ | .sealed a _ _ | .published a _ _ | .stored a _ _ => some a
  | _ => none

/-- Where a request starts. -/
def Stage.start : Call → Stage
  | .register _ | .login _ | .loginWithGoogle _ => .clear
  | _ => .aside

/-- A sign-in after a look-up of its account. -/
def Stage.found : Option AccountRecord → Stage
  | some r => .ready r.id
  | none => .clear

/-- How an answered call moves a request on. -/
def Stage.next : Stage → (o : Op) → o.Res → Stage
  | .clear, .accounts (.create _), r => .created r
  | .clear, .accounts (.findByEmail _), r => .found r
  | .clear, .accounts (.findByGoogleId _), r => .found r
  | .created a, .runtime .generateKeyPair, k => .keyed a k
  | .keyed a k, .runtime (.randomBytes _), iv => .sealed a k iv
  | .sealed a k iv, .dids (.createDid _), _ => .published a k iv
  | .published a k iv, .issuerKeys (.create _), _ => .stored a k iv
  | .stored a _ _, .accounts (.update _ _), _ => .ready a.id
  | q, _, _ => q

/-- The call writes no account row, and nothing of an identity. -/
def KeepsIdentity : Op → Prop
  | .accounts (.create _) | .dids (.createDid _) | .issuerKeys (.create _) => False
  | .accounts (.update _ patch) => ∀ x ∈ patch, ∀ v, x ≠ .issuerDid v
  | _ => True

theorem keepsIdentity_of_session {o : Op} (h : SessionCall o) : KeepsIdentity o := by
  cases o <;> first | exact h.elim | trivial

theorem keepsIdentity_of_mail {o : Op} (h : MailCall o) : KeepsIdentity o := by
  cases o with
  | accounts o =>
    cases o with
    | create data => exact h.elim
    | update id patch => rintro x hx v rfl; exact h _ hx
    | _ => trivial
  | _ => first | exact h.elim | trivial

theorem keepsIdentity_of_watch {o : Op} (h : WatchCall o) : KeepsIdentity o := by
  cases o with
  | accounts o => cases o <;> first | exact h.elim | trivial
  | _ => first | exact h.elim | trivial

theorem keepsIdentity_of_route {o : Op} (h : RouteCall o) : KeepsIdentity o := by
  cases o with
  | accounts o => cases o <;> first | exact h.elim | trivial
  | _ => first | exact h.elim | trivial

variable (cfg : Config) (core : Core)

/-- The DID of an account. -/
def didOf (a : AccountRecord) : String := buildAccountIssuerDid cfg.didDomain a.id

/-- The document of the account's DID with the key pair `k`. -/
def documentOf (a : AccountRecord) (k : KeyPair) : DIDDocument :=
  cfg.runtime.buildDIDDocument (didOf cfg a) k.publicKey

/-- The calls a request makes where it stands. -/
def Stage.Allows : Stage → Op → Prop
  | .created _, .runtime .generateKeyPair => True
  | .keyed _ _, .runtime (.randomBytes _) => True
  | .sealed a k _, .dids (.createDid row) => ∃ publicKeyMultibase,
      row = issuerDidRow a.id (didOf cfg a) k.publicKey publicKeyMultibase (documentOf cfg a k)
  | .published a k iv, .issuerKeys (.create data) =>
      data = issuerKeyData a.id (didOf cfg a) (encryptWith cfg iv k.privateKey)
  | .stored a _ _, .accounts (.update id patch) =>
      id = a.id ∧ patch = [.issuerDid (some (didOf cfg a))]
  | .clear, .accounts (.create _) => True
  | .aside, o | .clear, o | .ready _, o => KeepsIdentity o
  | _, _ => False

/-- The replies a request ends with. -/
def Stage.Answers : Stage → Reply → Prop
  | q, .session account _ => q = .ready account.id
  | q, _ => q.making = none

/-- The protocol of the requests with accounts and their identities. -/
def protocol : Protocol (server cfg core) Stage where
  init := Stage.start
  next := fun q e => q.next e.op e.res
  allowed := Stage.Allows cfg
  answers := Stage.Answers
  raises := fun q _ => q.making = none
  fails := fun q => q.making = none

/-! ### The programs obey the protocol -/

/-- The key pair has been generated. -/
def Drawn (k : KeyPair) : Prop := ∃ draw, k = cfg.runtime.generateKeyPair draw

/-- What the server takes from its libraries: generated key pairs match, a document has the
generated key it is built for, and encryption under the master key can be undone. -/
structure Correct : Prop where
  keyPair : ∀ draw, cfg.runtime.derivePublicKey (cfg.runtime.generateKeyPair draw).privateKey =
    (cfg.runtime.generateKeyPair draw).publicKey
  documentId : ∀ did draw, (cfg.runtime.buildDIDDocument did
    (cfg.runtime.generateKeyPair draw).publicKey).id = did
  documentKey : ∀ did draw, cfg.runtime.extractPublicKeyHex (cfg.runtime.buildDIDDocument did
    (cfg.runtime.generateKeyPair draw).publicKey) = (cfg.runtime.generateKeyPair draw).publicKey
  documentMethods : ∀ did draw, (cfg.runtime.buildDIDDocument did
    (cfg.runtime.generateKeyPair draw).publicKey).verificationMethod ≠ []
  gcm : cfg.GcmCorrect

variable {cfg core} {α : Type} {q : Stage} {N : Op → Prop} {a : AccountRecord}

theorem obeys_await (o : Op) (ha : q.Allows cfg o) :
    (protocol cfg core).Obeys (fun q' r => q' = q.next o r ∧
      ∃ w w' : World core, o.exec cfg w = (.ok r, w')) q (await o) :=
  ⟨ha, fun w _ w' he => ⟨rfl, w, w', he⟩⟩

/-- Calls that keep identities do not move a request that has its account, or needs none. -/
theorem obeys_still {p : Promise α} (hq : q = .aside ∨ ∃ id, q = .ready id)
    (hp : p.Uses N fun _ => True) (hN : ∀ o, N o → KeepsIdentity o) :
    (protocol cfg core).Obeys (fun q' _ => q' = q) q p := by
  refine Protocol.obeys_of_uses hp (fun o ho => ?_) (fun _ _ => ?_) fun _ => rfl
  · rcases hq with rfl | ⟨id, rfl⟩
    · exact ⟨by cases o <;> exact hN _ ho, fun _ _ => rfl⟩
    · exact ⟨by cases o <;> exact hN _ ho, fun _ _ => rfl⟩
  · rcases hq with rfl | ⟨id, rfl⟩ <;> rfl

theorem obeys_aside {p : Promise α} {f : α → Reply} (hp : p.Uses N fun _ => True)
    (hN : ∀ o, N o → KeepsIdentity o) (hf : ∀ x account tokens, f x ≠ .session account tokens) :
    (protocol cfg core).Obeys Stage.Answers .aside (p >>= fun x => pure (f x)) := by
  refine (obeys_still (.inl rfl) hp hN).bind ?_
  rintro _ x rfl
  show Stage.Answers .aside (f x)
  cases hx : f x <;> first | rfl | exact absurd hx (hf _ _ _)

theorem update_id {id : String} {patch : AccountPatch} {r : AccountRecord} {w w' : World core}
    (h : (Op.accounts (.update id patch)).exec cfg w = (.ok r, w')) : r.id = id :=
  Accounts.update_id (Op.exec_of_accounts h)

theorem obeys_issueSession {id accountId : String} :
    (protocol cfg core).Obeys (fun q _ => q = .ready id) (.ready id)
      (AuthService.issueSession cfg accountId none) :=
  obeys_still (.inr ⟨id, rfl⟩) issueSession_uses fun _ => keepsIdentity_of_session

theorem obeys_auditLog {id eventType : String} {payload : AuditPayload} :
    (protocol cfg core).Obeys (fun q _ => q = .ready id) (.ready id) (auditLog eventType payload) :=
  obeys_still (N := KeepsIdentity) (.inr ⟨id, rfl⟩) (await_uses trivial) fun _ h => h

/-- A new account is given its identity up to the DID in its row. -/
theorem obeys_provision (hrt : Correct cfg) :
    (protocol cfg core).Obeys (fun q did => (∃ k iv, q = .stored a k iv) ∧ did = didOf cfg a)
      (.created a) (provisionAccountIssuerDid cfg a.id) := by
  have hkeys : (protocol cfg core).Obeys (fun q x => ∃ k iv, Drawn cfg k ∧
      q = .sealed a k iv ∧ x = (k.publicKey, encryptWith cfg iv k.privateKey)) (.created a)
      (generateAndEncrypt cfg) := by
    refine (obeys_await (q := .created a) (.runtime .generateKeyPair) trivial).bind ?_
    rintro _ k ⟨rfl, w, w', he⟩
    have hdrawn : Drawn cfg k := ⟨w.draws, by cases he; rfl⟩
    refine (obeys_await (q := .keyed a k) (.runtime (.randomBytes 12)) trivial).bind ?_
    rintro _ iv ⟨rfl, -⟩
    exact ⟨k, iv, hdrawn, rfl, rfl⟩
  refine hkeys.bind ?_
  rintro _ _ ⟨k, iv, ⟨draw, rfl⟩, rfl, rfl⟩
  dsimp only
  split
  · rename_i hnil
    exact absurd hnil (hrt.documentMethods _ _)
  · refine (obeys_await (q := .sealed a _ iv) (.dids (.createDid _)) ⟨_, rfl⟩).bind ?_
    rintro _ _ ⟨rfl, -⟩
    refine (obeys_await (q := .published a _ iv) (.issuerKeys (.create _)) rfl).bind ?_
    rintro _ _ ⟨rfl, -⟩
    exact ⟨⟨_, iv, rfl⟩, rfl⟩

/-- What ends the creation of an account: provisioning, and the DID in the account row. -/
theorem obeys_setIssuerDid {k : KeyPair} {iv : List UInt8} :
    (protocol cfg core).Obeys (fun q r => q = .ready a.id ∧ r.id = a.id) (.stored a k iv)
      (AccountRepository.setIssuerDid a.id (didOf cfg a)) := by
  refine (obeys_await (q := .stored a k iv) (.accounts (.update _ _)) ⟨rfl, rfl⟩).mono ?_
  rintro _ r ⟨rfl, w, w', he⟩
  exact ⟨rfl, update_id he⟩

theorem obeys_register (hrt : Correct cfg) {input : RegisterInput} :
    (protocol cfg core).Obeys (fun q x => q = .ready x.1.id) .clear
      (AuthService.register cfg input) := by
  refine (obeys_await (q := .clear) (.accounts (.findByEmail _)) trivial).bind ?_
  rintro _ found ⟨rfl, -⟩
  cases found with
  | some account => exact rfl
  | none =>
    refine (obeys_await (q := .clear) (.runtime (.argon2Hash _)) trivial).bind ?_
    rintro _ passwordHash ⟨rfl, -⟩
    refine (obeys_await (q := .clear) (.accounts (.create _)) trivial).bind ?_
    rintro _ a ⟨rfl, -⟩
    refine (obeys_provision hrt).bind ?_
    rintro _ did ⟨⟨k, iv, rfl⟩, rfl⟩
    refine obeys_setIssuerDid.bind ?_
    rintro _ withDid ⟨rfl, hid⟩
    refine obeys_auditLog.bind ?_
    rintro _ _ rfl
    refine (obeys_still (.inr ⟨_, rfl⟩) sendVerificationEmail_uses
      fun _ => keepsIdentity_of_mail).bind ?_
    rintro _ _ rfl
    refine obeys_issueSession.bind ?_
    rintro _ tokens rfl
    exact congrArg Stage.ready hid.symm

theorem obeys_login {input : LoginInput} :
    (protocol cfg core).Obeys (fun q x => q = .ready x.1.id) .clear
      (AuthService.login cfg input) := by
  refine (obeys_await (q := .clear) (.accounts (.findByEmail _)) trivial).bind ?_
  rintro _ found ⟨rfl, -⟩
  cases found with
  | none => exact ⟨trivial, fun _ _ _ _ => rfl⟩
  | some account =>
    dsimp only
    cases account.passwordHash with
    | none => exact rfl
    | some passwordHash =>
      refine (obeys_await (q := .ready account.id) (.runtime (.argon2Verify _ _)) trivial).bind ?_
      rintro _ valid ⟨rfl, -⟩
      split_ifs
      · refine obeys_auditLog.bind ?_
        rintro _ _ rfl
        refine obeys_issueSession.bind ?_
        rintro _ tokens rfl
        exact rfl
      · refine obeys_auditLog.bind ?_
        rintro _ _ rfl
        exact rfl

theorem obeys_markVerifiedIf {cond : Bool} {account : AccountRecord} {id : String}
    (hid : account.id = id) :
    (protocol cfg core).Obeys (fun q r => q = .ready id ∧ r.id = id) (.ready id)
      (AuthService.markVerifiedIf cond account) := by
  unfold AuthService.markVerifiedIf
  split_ifs
  · refine (obeys_await (q := .ready id) (.runtime .now) trivial).bind ?_
    rintro _ now ⟨rfl, -⟩
    refine (obeys_await (q := .ready id) (.accounts (.update _ _)) (by simp [Stage.Allows,
      KeepsIdentity])).mono ?_
    rintro _ r ⟨rfl, w, w', he⟩
    exact ⟨rfl, (update_id he).trans hid⟩
  · exact ⟨rfl, hid⟩

theorem obeys_googleAccount (hrt : Correct cfg) {profile : GoogleProfile} :
    (protocol cfg core).Obeys (fun q account => q = .ready account.id) .clear
      (AuthService.googleAccount cfg profile) := by
  refine (obeys_await (q := .clear) (.accounts (.findByGoogleId _)) trivial).bind ?_
  rintro _ found ⟨rfl, -⟩
  cases found with
  | some account => exact rfl
  | none =>
    refine (obeys_await (q := .clear) (.accounts (.findByEmail _)) trivial).bind ?_
    rintro _ found ⟨rfl, -⟩
    cases found with
    | some existing =>
      dsimp only
      unfold AuthService.linkByEmail
      split_ifs
      · refine (obeys_await (q := .ready existing.id) (.accounts (.update _ _))
          (by simp [Stage.Allows, KeepsIdentity])).bind ?_
        rintro _ linked ⟨rfl, w, w', he⟩
        refine (obeys_markVerifiedIf (update_id he)).bind ?_
        rintro _ account ⟨rfl, hid⟩
        refine obeys_auditLog.bind ?_
        rintro _ _ rfl
        exact congrArg Stage.ready hid.symm
      · exact rfl
    | none =>
      refine (obeys_await (q := .clear) (.accounts (.create _)) trivial).bind ?_
      rintro _ a ⟨rfl, -⟩
      refine (obeys_provision hrt).bind ?_
      rintro _ did ⟨⟨k, iv, rfl⟩, rfl⟩
      refine obeys_setIssuerDid.bind ?_
      rintro _ withDid ⟨rfl, hid⟩
      refine (obeys_markVerifiedIf hid).bind ?_
      rintro _ account ⟨rfl, hid⟩
      refine obeys_auditLog.bind ?_
      rintro _ _ rfl
      exact congrArg Stage.ready hid.symm

theorem obeys_loginWithGoogle (hrt : Correct cfg) {profile : GoogleProfile} :
    (protocol cfg core).Obeys (fun q x => q = .ready x.1.id) .clear
      (AuthService.loginWithGoogle cfg profile) := by
  refine (obeys_googleAccount hrt).bind ?_
  rintro _ account rfl
  refine obeys_auditLog.bind ?_
  rintro _ _ rfl
  refine obeys_issueSession.bind ?_
  rintro _ tokens rfl
  exact rfl

theorem obeys_outside {c : Call} (hc : c.Outside) :
    (protocol cfg core).Obeys Stage.Answers .aside (c.prog cfg) := by
  obtain ⟨β, p, f, hprog, huses, hreply⟩ := Call.Outside.uses hc
  rw [hprog]
  refine obeys_aside huses (fun _ ho => ho.elim keepsIdentity_of_route keepsIdentity_of_watch) ?_
  intro b account tokens hb
  have hout := hreply b
  rw [hb] at hout
  exact hout

/-- **Every request of the server obeys the protocol.** -/
theorem obeys_prog (hrt : Correct cfg) (c : Call) :
    (protocol cfg core).Obeys Stage.Answers (Stage.start c) (c.prog cfg) := by
  cases c with
  | register input =>
    refine (obeys_register hrt).bind ?_
    rintro _ x rfl; exact rfl
  | login input =>
    refine obeys_login.bind ?_
    rintro _ x rfl; exact rfl
  | loginWithGoogle profile =>
    refine (obeys_loginWithGoogle hrt).bind ?_
    rintro _ x rfl; exact rfl
  | refresh refreshToken =>
    exact obeys_aside refresh_uses (fun _ => keepsIdentity_of_session) (by simp)
  | logout refreshToken =>
    exact obeys_aside (f := fun _ => .done) logout_uses
      (fun _ => keepsIdentity_of_session) (by simp)
  | verifyEmail token =>
    exact obeys_aside verifyEmail_uses (fun _ => keepsIdentity_of_mail) (by simp)
  | resendVerificationEmail email =>
    exact obeys_aside (f := fun _ => .done) resendVerificationEmail_uses
      (fun _ => keepsIdentity_of_mail) (by simp)
  | _ => exact obeys_outside trivial

end Identity

end HelixServer
