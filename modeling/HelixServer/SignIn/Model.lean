import HelixServer.SignIn.Protocol

/-!
# Sign-ins, abstractly

What sign-ins see and change of the tables is a directory: who can be found by which e-mail and
Google id and entered with which password, and the account of each refresh token.  A request is a
party that moves through the stages of its protocol, and the moves of the parties interleave freely.

## Main definitions

* `Login`, `Token`, `Directory` : what sign-ins see of the tables.
* `Move` : one step of a request on the directory.
* `Model`, `Step` : a directory and the parties, and their steps.
* `Stage.Of` : the stages of a call.
* `Evolves` : accounts keep their ids, e-mails and passwords, and tokens their accounts.
-/

namespace HelixServer

namespace SignIn

open Async

/-- What an account is found and entered by. -/
structure Login where
  id : String
  email : String
  passwordHash : Option String
  googleId : Option String
  deriving DecidableEq

/-- The hash of a refresh token, and its account. -/
structure Token where
  tokenHash : String
  accountId : String
  deriving DecidableEq

/-- What sign-ins see of the tables. -/
structure Directory where
  logins : List Login
  tokens : List Token

/-- The login of an account row. -/
def loginOf (r : AccountRecord) : Login := ⟨r.id, r.email, r.passwordHash, r.googleId⟩

/-- The token of a refresh-token row. -/
def tokenOf (r : RefreshTokenRecord) : Token := ⟨r.tokenHash, r.accountId⟩

/-- The login with the Google id `g`, if it is that of the account `id`. -/
def Login.bind (id g : String) (l : Login) : Login :=
  if l.id = id then { l with googleId := some g } else l

/-- The Google id `g` linked to the account `id`. -/
def Directory.bind (d : Directory) (id g : String) : Directory :=
  { d with logins := d.logins.map (Login.bind id g) }

/-- A new account. -/
def Directory.enrol (d : Directory) (l : Login) : Directory := { d with logins := d.logins ++ [l] }

/-- A new refresh token. -/
def Directory.issue (d : Directory) (t : Token) : Directory := { d with tokens := d.tokens ++ [t] }

/-- One step of a request: the directory and its stage before the step, and both after it. -/
inductive Move (cfg : Config) : Directory → Stage → Directory → Stage → Prop
  | stay (d : Directory) (q : Stage) : Move cfg d q d q
  /-- A registration whose e-mail is taken. -/
  | taken {d : Directory} (input : RegisterInput) (l : Login) (hl : l ∈ d.logins)
      (hemail : l.email = normalizeEmail cfg.runtime input.email) :
      Move cfg d (.register input) d (.refused .accountAlreadyExists)
  | free {d : Directory} (input : RegisterInput)
      (hfree : ∀ l ∈ d.logins, l.email ≠ normalizeEmail cfg.runtime input.email) :
      Move cfg d (.register input) d (.hashing input)
  | hash {d : Directory} (input : RegisterInput) (draw : ℕ) :
      Move cfg d (.hashing input) d (.hashed input (cfg.runtime.argon2Hash draw input.password))
  | register {d : Directory} (input : RegisterInput) (passwordHash id : String)
      (hid : ∀ l ∈ d.logins, l.id ≠ id) :
      Move cfg d (.hashed input passwordHash) (d.enrol ⟨id, normalizeEmail cfg.runtime input.email,
        some passwordHash, none⟩) (.ready id none)
  /-- A sign-in with a password whose e-mail has no account, or an account without a password. -/
  | miss {d : Directory} (input : LoginInput) : Move cfg d (.login input) d .aside
  | find {d : Directory} (input : LoginInput) (r : AccountRecord) (passwordHash : String)
      (hl : loginOf r ∈ d.logins) (hemail : r.email = normalizeEmail cfg.runtime input.email)
      (hpassword : r.passwordHash = some passwordHash) :
      Move cfg d (.login input) d (.checking r passwordHash input.password)
  | pass {d : Directory} (r : AccountRecord) (passwordHash password : String)
      (hvalid : cfg.runtime.argon2Verify passwordHash password = true) :
      Move cfg d (.checking r passwordHash password) d (.ready r.id none)
  | fail {d : Directory} (r : AccountRecord) (passwordHash password : String) :
      Move cfg d (.checking r passwordHash password) d .aside
  /-- A Google sign-in whose Google id is bound. -/
  | bound {d : Directory} (profile : GoogleProfile) (l : Login) (hl : l ∈ d.logins)
      (hbound : l.googleId = some profile.googleId) :
      Move cfg d (.google profile) d (.ready l.id none)
  | unbound {d : Directory} (profile : GoogleProfile)
      (hfree : ∀ l ∈ d.logins, l.googleId ≠ some profile.googleId) :
      Move cfg d (.google profile) d (.unbound profile)
  | unverified {d : Directory} (profile : GoogleProfile) (l : Login) (hl : l ∈ d.logins)
      (hemail : l.email = normalizeEmail cfg.runtime profile.email)
      (hverified : profile.emailVerified = false) :
      Move cfg d (.unbound profile) d
        (.refused (.accountNotFound "Google account email is not verified"))
  | identify {d : Directory} (profile : GoogleProfile) (r : AccountRecord)
      (hl : loginOf r ∈ d.logins) (hemail : r.email = normalizeEmail cfg.runtime profile.email)
      (hverified : profile.emailVerified = true) :
      Move cfg d (.unbound profile) d (.matched profile r)
  | vacant {d : Directory} (profile : GoogleProfile)
      (hfree : ∀ l ∈ d.logins, l.email ≠ normalizeEmail cfg.runtime profile.email) :
      Move cfg d (.unbound profile) d (.vacant profile)
  | link {d : Directory} (profile : GoogleProfile) (r : AccountRecord) :
      Move cfg d (.matched profile r) (d.bind r.id profile.googleId) (.ready r.id none)
  | registerByGoogle {d : Directory} (profile : GoogleProfile) (id : String)
      (hid : ∀ l ∈ d.logins, l.id ≠ id) :
      Move cfg d (.vacant profile) (d.enrol ⟨id, normalizeEmail cfg.runtime profile.email, none,
        some profile.googleId⟩) (.ready id none)
  /-- A refresh with a token that is not stored, or revoked. -/
  | dismiss {d : Directory} (refreshToken : String) : Move cfg d (.refresh refreshToken) d .aside
  /-- A refresh with a token that is not revoked. -/
  | present {d : Directory} (refreshToken : String) (r : RefreshTokenRecord)
      (ht : tokenOf r ∈ d.tokens)
        (hhash : r.tokenHash = hashRefreshToken cfg.runtime refreshToken) :
      Move cfg d (.refresh refreshToken) d (.holding r)
  | renew {d : Directory} (r : RefreshTokenRecord) (bytes : List UInt8) :
      Move cfg d (.holding r) d (.ready r.accountId (some bytes))
  | draw {d : Directory} (id : String) (bytes bytes' : Option (List UInt8)) :
      Move cfg d (.ready id bytes) d (.ready id bytes')
  | issue {d : Directory} (id : String) (bytes : List UInt8)
      (hnew : ∀ t ∈ d.tokens, t.tokenHash ≠ tokenHashOf cfg bytes) :
      Move cfg d (.ready id (some bytes)) (d.issue ⟨tokenHashOf cfg bytes, id⟩) (.opened id bytes)

/-- A request. -/
structure Party where
  call : Call
  stage : Stage

/-- The directory and the requests made so far. -/
structure Model where
  directory : Directory
  parties : List Party

/-- Steps. -/
inductive Act where
  /-- A request arrives. -/
  | join (c : Call)
  /-- Party `i` moves. -/
  | move (i : ℕ)

/-- The model with party `i` at another stage. -/
def Model.put (m : Model) (d : Directory) (i : ℕ) (p : Party) : Model := ⟨d, m.parties.set i p⟩

/-- The steps. -/
inductive Step (cfg : Config) : Model → Act → Model → Prop
  | join (m : Model) (c : Call) :
      Step cfg m (.join c) ⟨m.directory, m.parties ++ [⟨c, .start c⟩]⟩
  | move {m : Model} {i : ℕ} {p : Party} {d : Directory} {q : Stage}
      (hp : m.parties[i]? = some p) (hm : Move cfg m.directory p.stage d q) :
      Step cfg m (.move i) (m.put d i ⟨p.call, q⟩)

/-- The sign-ins as a transition system. -/
def lts (cfg : Config) : Lts Model Act := ⟨Step cfg⟩

/-! ### The stages of a call -/

/-- The call signs someone in. -/
def SignsIn : Call → Prop
  | .register _ | .login _ | .loginWithGoogle _ | .refresh _ => True
  | _ => False

/-- The call is a registration or a Google sign-in. -/
def SignsUp : Call → Prop
  | .register _ | .loginWithGoogle _ => True
  | _ => False

/-- The refusals of a call. -/
def Refuses : Call → HelixError → Prop
  | .register _, e => e = .accountAlreadyExists
  | .loginWithGoogle _, e => e = .accountNotFound "Google account email is not verified"
  | _, _ => False

/-- The stages of a call. -/
def Stage.Of (cfg : Config) (c : Call) : Stage → Prop
  | .aside => ¬ SignsUp c
  | .register input | .hashing input => c = .register input
  | .hashed input passwordHash =>
    c = .register input ∧ ∃ draw, passwordHash = cfg.runtime.argon2Hash draw input.password
  | .login input => c = .login input
  | .checking r passwordHash password => ∃ input, c = .login input ∧ input.password = password ∧
      r.email = normalizeEmail cfg.runtime input.email ∧ r.passwordHash = some passwordHash
  | .google profile | .unbound profile | .vacant profile => c = .loginWithGoogle profile
  | .matched profile r => c = .loginWithGoogle profile ∧ profile.emailVerified = true ∧
      r.email = normalizeEmail cfg.runtime profile.email
  | .refresh refreshToken => c = .refresh refreshToken
  | .holding r => ∃ refreshToken, c = .refresh refreshToken ∧
      r.tokenHash = hashRefreshToken cfg.runtime refreshToken
  | .refused e => Refuses c e
  | .ready _ _ | .opened _ _ => SignsIn c

variable {cfg : Config} {d d' : Directory} {q q' : Stage} {m m' : Model} {a : Act}

theorem Stage.of_start (c : Call) : (Stage.start c).Of cfg c := by
  cases c <;> first | rfl | exact id

theorem Move.of {c : Call} (h : Move cfg d q d' q') (hc : q.Of cfg c) : q'.Of cfg c := by
  cases h with
  | stay _ | free _ _ | unbound _ _ | vacant _ _ | draw _ _ _ | issue _ _ _ => exact hc
  | taken input l hl hemail => cases hc; rfl
  | hash input draw => exact ⟨hc, draw, rfl⟩
  | register input passwordHash id hid => obtain ⟨rfl, -⟩ := hc; trivial
  | miss input => cases hc; exact id
  | find input r passwordHash hl hemail hpassword => exact ⟨input, hc, rfl, hemail, hpassword⟩
  | pass r passwordHash password hvalid => obtain ⟨input, rfl, -⟩ := hc; trivial
  | fail r passwordHash password => obtain ⟨input, rfl, -⟩ := hc; exact id
  | bound profile l hl hbound => cases hc; trivial
  | unverified profile l hl hemail hverified => cases hc; rfl
  | identify profile r hl hemail hverified => exact ⟨hc, hverified, hemail⟩
  | link profile r => obtain ⟨rfl, -⟩ := hc; trivial
  | registerByGoogle profile id hid => cases hc; trivial
  | dismiss refreshToken => cases hc; exact id
  | present refreshToken r ht hhash => exact ⟨refreshToken, hc, hhash⟩
  | renew r bytes => obtain ⟨refreshToken, rfl, -⟩ := hc; trivial

/-! ### Accounts over time -/

/-- `l'` is a later version of `l`. -/
structure SameAccount (l l' : Login) : Prop where
  id : l'.id = l.id
  email : l'.email = l.email
  passwordHash : l'.passwordHash = l.passwordHash

theorem SameAccount.refl (l : Login) : SameAccount l l := ⟨rfl, rfl, rfl⟩

theorem SameAccount.trans {l l' l'' : Login} (h : SameAccount l l') (h' : SameAccount l' l'') :
    SameAccount l l'' :=
  ⟨h'.id.trans h.id, h'.email.trans h.email, h'.passwordHash.trans h.passwordHash⟩

theorem sameAccount_bind (id g : String) (l : Login) : SameAccount l (l.bind id g) := by
  unfold Login.bind
  split_ifs <;> exact ⟨rfl, rfl, rfl⟩

theorem Login.bind_googleId {id g : String} {l : Login} (h : l.id = id) :
    (l.bind id g).googleId = some g := by
  simp [Login.bind, h]

theorem Login.bind_of_ne {id g : String} {l : Login} (h : l.id ≠ id) : l.bind id g = l := by
  simp [Login.bind, h]

/-- Accounts stay and tokens stay. -/
structure Evolves (d d' : Directory) : Prop where
  logins : ∀ l ∈ d.logins, ∃ l' ∈ d'.logins, SameAccount l l'
  tokens : ∀ t ∈ d.tokens, t ∈ d'.tokens

theorem Evolves.refl (d : Directory) : Evolves d d := ⟨fun l hl => ⟨l, hl, .refl l⟩, fun _ h => h⟩

theorem evolves_enrol (l : Login) : Evolves d (d.enrol l) :=
  ⟨fun l' hl' => ⟨l', List.mem_append_left _ hl', .refl l'⟩, fun _ h => h⟩

theorem evolves_bind (id g : String) : Evolves d (d.bind id g) :=
  ⟨fun l hl => ⟨_, List.mem_map_of_mem hl, sameAccount_bind id g l⟩, fun _ h => h⟩

theorem evolves_issue (t : Token) : Evolves d (d.issue t) :=
  ⟨fun l hl => ⟨l, hl, .refl l⟩, fun _ h => List.mem_append_left _ h⟩

theorem Move.evolves (h : Move cfg d q d' q') : Evolves d d' := by
  cases h with
  | register _ _ _ _ | registerByGoogle _ _ _ => exact evolves_enrol _
  | link _ _ => exact evolves_bind _ _
  | issue _ _ _ => exact evolves_issue _
  | _ => exact .refl _

/-- The account row that a request has found by its e-mail. -/
def Stage.subject : Stage → Option AccountRecord
  | .checking r _ _ | .matched _ r => some r
  | _ => none

/-- The account that a request may open a session for. -/
def Stage.account : Stage → Option String
  | .ready id _ | .opened id _ => some id
  | _ => none

/-- The directory has the account of the row `r`. -/
def Known (d : Directory) (r : AccountRecord) : Prop := ∃ l ∈ d.logins, SameAccount (loginOf r) l

theorem Known.mono {r : AccountRecord} (h : Known d r) (he : Evolves d d') : Known d' r := by
  obtain ⟨l₁, hl₁, hs₁⟩ := h
  obtain ⟨l₂, hl₂, hs₂⟩ := he.logins l₁ hl₁
  exact ⟨l₂, hl₂, hs₁.trans hs₂⟩

theorem Move.known (h : Move cfg d q d' q') (hq : ∀ r ∈ q.subject, Known d r) :
    ∀ r ∈ q'.subject, Known d' r := by
  have he := h.evolves
  cases h with
  | stay _ => exact fun r hr => (hq r hr).mono he
  | find input r passwordHash hl hemail hpassword =>
    intro r' hr'
    obtain rfl : r = r' := Option.some.inj hr'
    exact ⟨_, hl, .refl _⟩
  | identify profile r hl hemail hverified =>
    intro r' hr'
    obtain rfl : r = r' := Option.some.inj hr'
    exact ⟨_, hl, .refl _⟩
  | _ => intro r' hr'; exact absurd hr' (Option.not_mem_none r')

/-- No two accounts share an id. -/
def Directory.Distinct (d : Directory) : Prop := (d.logins.map (·.id)).Nodup

theorem Directory.Distinct.eq_of_id (h : d.Distinct) {l l' : Login} (hl : l ∈ d.logins)
    (hl' : l' ∈ d.logins) (hid : l.id = l'.id) : l = l' :=
  List.inj_on_of_nodup_map h hl hl' hid

theorem Directory.Distinct.enrol (h : d.Distinct) {l : Login}
    (hid : ∀ l' ∈ d.logins, l'.id ≠ l.id) : (d.enrol l).Distinct := by
  rw [Distinct, Directory.enrol, List.map_append, List.nodup_append]
  refine ⟨h, by simp, ?_⟩
  simp only [List.mem_map, List.map_cons, List.map_nil, List.mem_singleton]
  rintro _ ⟨l', hl', rfl⟩ _ rfl
  exact hid l' hl'

theorem Directory.Distinct.bind (h : d.Distinct) (id g : String) : (d.bind id g).Distinct := by
  have hids : (d.bind id g).logins.map (·.id) = d.logins.map (·.id) := by
    rw [Directory.bind, List.map_map]
    exact List.map_congr_left fun l _ => (sameAccount_bind id g l).id
  rw [Distinct, hids]
  exact h

theorem Move.distinct (h : Move cfg d q d' q') (hd : d.Distinct) : d'.Distinct := by
  cases h with
  | register input passwordHash id hid => exact hd.enrol hid
  | registerByGoogle profile id hid => exact hd.enrol hid
  | link profile r => exact hd.bind _ _
  | _ => exact hd

/-! ### Steps -/

theorem Model.mem_put {i : ℕ} {p p' : Party} (h : p' ∈ (m.put d i p).parties) :
    p' = p ∨ p' ∈ m.parties :=
  (List.mem_or_eq_of_mem_set h).symm

theorem Step.evolves (h : Step cfg m a m') : Evolves m.directory m'.directory := by
  cases h with
  | join _ => exact .refl _
  | move _ hm => exact hm.evolves

theorem Step.distinct (h : Step cfg m a m') (hd : m.directory.Distinct) :
    m'.directory.Distinct := by
  cases h with
  | join _ => exact hd
  | move _ hm => exact hm.distinct hd

/-- What holds in every state. -/
structure Consistent (cfg : Config) (m : Model) : Prop where
  distinct : m.directory.Distinct
  of : ∀ p ∈ m.parties, p.stage.Of cfg p.call
  known : ∀ p ∈ m.parties, ∀ r ∈ p.stage.subject, Known m.directory r

/-- **Consistency is preserved by every step.** -/
theorem Consistent.step (hc : Consistent cfg m) (h : Step cfg m a m') : Consistent cfg m' := by
  have he := h.evolves
  refine ⟨h.distinct hc.distinct, fun p hp => ?_, fun p hp => ?_⟩
  all_goals cases h with
    | join c =>
      rcases List.mem_append.1 hp with hp | hp
      · first | exact hc.of p hp | exact hc.known p hp
      · obtain rfl := List.mem_singleton.1 hp
        first | exact Stage.of_start c | exact fun r hr => by cases c <;> cases hr
    | move hi hm =>
      have hi' := List.mem_of_getElem? hi
      rcases Model.mem_put hp with rfl | hp
      · first | exact hm.of (hc.of _ hi') | exact hm.known (hc.known _ hi')
      · first | exact hc.of p hp | exact fun r hr => (hc.known p hp r hr).mono he

end SignIn

end HelixServer
