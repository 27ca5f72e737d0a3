import HelixServer.Footprint
import HelixServer.Routes.Auth

/-!
# The server behind its routes

`server.ts` puts the routes of `routes/auth` in front of the auth service.  The HTTP server is a
front end of the machine of the services: a request to a route of the auth service is read, perhaps
with the help of Google, and what has been read is a call of the machine; a request to another route
is a call as it stands.

* `HttpRequest`, `HttpReply` : the requests and their replies.
* `Google` : what Google answers, a state machine of which nothing is assumed but the types of its
  answers.
* `front cfg google G core` : the front end, and `layering`, the plans of its requests.
-/

namespace HelixServer

namespace Http

open Async
open Routes (GoogleConfig GoogleOp GoogleReply googleSig GooglePromise)

/-- A request over HTTP. -/
inductive HttpRequest where
  | register (body : Json)
  | login (body : Json)
  | refresh (body : Json)
  | logout (body : Json)
  | verifyEmail (body : Json)
  | resendVerification (body : Json)
  | google
  | googleCallback (code : Option HeaderValue)
  /-- A request to a route outside `routes/auth`. -/
  | other (c : Call) (h : c.Outside)

/-- What a request is answered with. -/
inductive HttpReply where
  | sent (status : ℕ) (reply : Reply)
  | google (reply : GoogleReply)

/-- Google, with a state of its own. -/
structure Google where
  State : Type
  exec : (o : GoogleOp) → State → o.Res × State

/-- Google as a service. -/
abbrev Google.service (G : Google) : Service HelixError where
  sig := googleSig
  World := G.State
  exec := fun o v => let x := G.exec o v; (.ok x.1, x.2)

/-- A program that may ask Google. -/
abbrev HttpPromise (α : Type) := Prog (serverSig.sum googleSig) HelixError α

/-- The status of the reply to a request outside `routes/auth`. -/
def status : Call → ℕ
  | .onboard _ _ | .listVCs _ _ | .revokeVC _ _ | .listAuditLog _ _ => 200
  | _ => 201

section Programs

variable (cfg : Config) (google : GoogleConfig)

/-- `GET /v1/auth/google/callback`. -/
def callback (code : Option HeaderValue) : HttpPromise HttpReply := do
  match ← (Routes.googleProfile google code).inr with
  | .inl profile =>
    let (account, tokens) ← (AuthService.loginWithGoogle cfg profile).inl
    return .sent 200 (.session account tokens)
  | .inr reply => return .google reply

/-- The program of a request. -/
def HttpRequest.prog : HttpRequest → HttpPromise HttpReply
  | .register body => do
    let (status, account, tokens) ← (Routes.register cfg body).inl
    return .sent status (.session account tokens)
  | .login body => do
    let (status, account, tokens) ← (Routes.login cfg body).inl
    return .sent status (.session account tokens)
  | .refresh body => do
    let (status, tokens) ← (Routes.refresh cfg body).inl
    return .sent status (.tokens tokens)
  | .logout body => do
    let status ← (Routes.logout cfg body).inl
    return .sent status .done
  | .verifyEmail body => do
    let (status, account) ← (Routes.verifyEmail cfg body).inl
    return .sent status (.account account)
  | .resendVerification body => do
    let status ← (Routes.resendVerification cfg body).inl
    return .sent status .done
  | .google => return .google (Routes.googleRedirect google)
  | .googleCallback code => callback cfg google code
  | .other c _ => do
    let reply ← (c.prog cfg).inl
    return .sent (status c) reply

/-- The server behind its routes. -/
abbrev front (G : Google) (core : Core) : Front (server cfg core) where
  service := G.service
  Request := HttpRequest
  Answer := HttpReply
  prog := HttpRequest.prog cfg google

end Programs

/-! ### The plans of the requests -/

/-- What `POST /v1/auth/resend-verification` requires of a body. -/
def requireEmail (body : Json) : Except HelixError String :=
  if body.isNull then .error .typeError
  else
    match (body.getString "email").filter fun email => email.toList.contains '@' with
    | none => .error (.validation "A valid email is required")
    | some email => .ok email

/-- A request that is read without Google. -/
def decoding (read : Except HelixError Call) : GooglePromise (Call ⊕ HttpReply) :=
  match read with
  | .error e => .raise e
  | .ok c => .pure (.inl c)

/-- The call that a request is read as, or its answer. -/
def HttpRequest.decode (google : GoogleConfig) : HttpRequest → GooglePromise (Call ⊕ HttpReply)
  | .register body => decoding ((Routes.registerInput body).map .register)
  | .login body => decoding ((Routes.loginInput body).map .login)
  | .refresh body => decoding ((Routes.requireText "refreshToken" body).map .refresh)
  | .logout body => decoding ((Routes.requireText "refreshToken" body).map .logout)
  | .verifyEmail body => decoding ((Routes.requireText "token" body).map .verifyEmail)
  | .resendVerification body => decoding ((requireEmail body).map .resendVerificationEmail)
  | .google => .pure (.inr (.google (Routes.googleRedirect google)))
  | .googleCallback code =>
    (Routes.googleProfile google code).bind fun x => .pure (x.map .loginWithGoogle .google)
  | .other c _ => .pure (.inl c)

/-- The status of a request that is served. -/
def HttpRequest.status : HttpRequest → ℕ
  | .register _ => 201
  | .logout _ => 204
  | .resendVerification _ => 202
  | .other c _ => Http.status c
  | _ => 200

/-- The plan of a request. -/
def HttpRequest.plan (cfg : Config) (google : GoogleConfig) (core : Core) (r : HttpRequest) :
    Plan (server cfg core) googleSig HttpReply where
  decode := r.decode google
  encode := .sent r.status

section

variable {cfg : Config} {google : GoogleConfig} {core : Core} {α : Type} {r : HttpRequest}

theorem plan_of_reading {read : Except HelixError α} {c : α → Call} {β : Type}
    {p : α → Promise β} {answer : β → HttpReply} (hdecode : r.decode google = decoding (read.map c))
    (hprog : ∀ a, ((p a).inl.bind fun b => .pure (answer b)) =
      ((c a).prog cfg).inl.bind fun reply =>
        (.pure (.sent r.status reply) : HttpPromise HttpReply)) :
    ((Routes.reading read p).inl.bind fun b => .pure (answer b)) =
      (r.plan cfg google core).prog := by
  rw [Plan.prog, show (r.plan cfg google core).decode = _ from hdecode]
  cases read with
  | error e => rfl
  | ok a => exact hprog a

theorem resend_eq {body : Json} : Routes.resendVerification cfg body =
    Routes.reading (requireEmail body) fun email => do
      AuthService.resendVerificationEmail cfg email
      return 202 := by
  unfold Routes.resendVerification requireEmail
  by_cases hnull : body.isNull = true
  · rw [if_pos hnull, if_pos hnull]
    rfl
  · rw [if_neg hnull, if_neg hnull]
    cases body.getString "email" with
    | none => rfl
    | some email =>
      dsimp only
      by_cases hat : email.toList.contains '@' = true
      · simp only [hat, if_true, Option.filter]
        rfl
      · simp only [hat, Option.filter]
        rfl

end

/-- **Every route reads its request, and hands what it has read to the machine.** -/
def layering (cfg : Config) (google : GoogleConfig) (G : Google) (core : Core) :
    Layering (front cfg google G core) where
  plan := HttpRequest.plan cfg google core
  prog_eq := by
    intro r
    cases r with
    | register body | login body | refresh body | verifyEmail body =>
      refine plan_of_reading rfl fun input => ?_
      simp only [Call.prog, Prog.bind_def, Prog.inl_bind, Prog.bind_assoc]
      rfl
    | logout body =>
      refine plan_of_reading (c := .logout) rfl fun token => ?_
      simp only [Call.prog, Prog.bind_def, Prog.inl_bind, Prog.bind_assoc]
      rfl
    | resendVerification body =>
      show Prog.bind (Prog.inl (Routes.resendVerification cfg body)) _ = _
      rw [resend_eq]
      refine plan_of_reading (c := .resendVerificationEmail) rfl fun email => ?_
      simp only [Call.prog, Prog.bind_def, Prog.inl_bind, Prog.bind_assoc]
      rfl
    | google => rfl
    | other c h => rfl
    | googleCallback code =>
      simp only [HttpRequest.prog, callback, Plan.prog, HttpRequest.plan, HttpRequest.decode,
        Prog.bind_def, Prog.inr_bind, Prog.bind_assoc]
      congr 1
      funext x
      cases x with
      | inl profile =>
        show _ = Prog.bind (Prog.inl (Call.prog cfg (.loginWithGoogle profile))) _
        simp only [Call.prog, Prog.bind_def, Prog.inl_bind, Prog.bind_assoc]
        rfl
      | inr reply => rfl

end Http

end HelixServer
