import HelixServer.Http.Server

/-!
# What the routes read

A request is handed to the auth service only if it is well formed, and every well-formed request is
(`after_iff_reads`): an e-mail with an at sign and a password of eight code units, a token that is
not empty, a code for which Google has shown a profile.  So a run of the HTTP server is a run of the
services in which every task serves a well-formed request (`served_of_run`).
-/

namespace HelixServer

namespace Http

open Async
open Routes (GoogleConfig GoogleOp GoogleReply FetchResponse TokenJson ProfileJson googleSig
  GooglePromise)

/-- The body has an e-mail with an at sign, and a password of at least eight code units. -/
structure Credentials (body : Json) (email password : String) : Prop where
  email_eq : body.getString "email" = some email
  at_mem : '@' ∈ email.toList
  password_eq : body.getString "password" = some password
  length_le : 8 ≤ utf16Length password

/-- The body has a text in the field, and it is not empty. -/
structure Carries (field : String) (body : Json) (text : String) : Prop where
  text_eq : body.getString field = some text
  ne_empty : text ≠ ""

/-- Google has exchanged the code for an access token, and shown the profile of the access token. -/
inductive Shows (google : GoogleConfig) (code : String) :
    List (Sigma googleSig.Res) → GoogleProfile → Prop
  | profile {clientId clientSecret redirectUri accessToken sub email : String}
      {token : TokenJson} {profile : ProfileJson}
      (hid : truthy google.googleClientId = some clientId)
      (hsecret : truthy google.googleClientSecret = some clientSecret)
      (huri : truthy google.googleRedirectUri = some redirectUri)
      (haccess : truthy token.accessToken = some accessToken)
      (hsub : truthy profile.sub = some sub) (hemail : truthy profile.email = some email) :
      Shows google code
        [⟨.token (Routes.tokenForm code clientId clientSecret redirectUri),
            (⟨true, some (some token)⟩ : FetchResponse TokenJson)⟩,
          ⟨.userinfo ("Bearer " ++ accessToken),
            (⟨true, some (some profile)⟩ : FetchResponse ProfileJson)⟩]
        ⟨sub, email, profile.emailVerified.getD false⟩

/-- What a request is read as, with these answers of Google. -/
inductive Reads (google : GoogleConfig) : HttpRequest → List (Sigma googleSig.Res) → Call → Prop
  | register {body : Json} {email password : String} (h : Credentials body email password) :
      Reads google (.register body) [] (.register
        { email := email, password := password
          companyName := asOptionalString (body.prop "companyName")
          fieldOfOperation := asOptionalString (body.prop "fieldOfOperation") })
  | login {body : Json} {email password : String} (h : Credentials body email password) :
      Reads google (.login body) [] (.login ⟨email, password⟩)
  | refresh {body : Json} {token : String} (h : Carries "refreshToken" body token) :
      Reads google (.refresh body) [] (.refresh token)
  | logout {body : Json} {token : String} (h : Carries "refreshToken" body token) :
      Reads google (.logout body) [] (.logout token)
  | verifyEmail {body : Json} {token : String} (h : Carries "token" body token) :
      Reads google (.verifyEmail body) [] (.verifyEmail token)
  | resend {body : Json} {email : String} (h : body.getString "email" = some email)
      (hat : '@' ∈ email.toList) :
      Reads google (.resendVerification body) [] (.resendVerificationEmail email)
  | callback {code : Option HeaderValue} {text : String} {es : List (Sigma googleSig.Res)}
      {profile : GoogleProfile} (hcode : Routes.codeText code = some text)
      (h : Shows google text es profile) :
      Reads google (.googleCallback code) es (.loginWithGoogle profile)
  | other {c : Call} (h : c.Outside) : Reads google (.other c h) [] c

variable {google : GoogleConfig} {es : List (Sigma googleSig.Res)} {body : Json} {c : Call}

/-! ### The bodies -/

theorem not_isNull {field text : String} (h : body.getString field = some text) :
    body.isNull = false := by
  cases body with
  | null => cases h
  | _ => rfl

theorem requireEmailPassword_iff {email password : String} :
    Routes.requireEmailPassword body = .ok (email, password) ↔ Credentials body email password := by
  constructor
  · intro h
    unfold Routes.requireEmailPassword at h
    split_ifs at h
    split at h
    · cases h
    · rename_i email' hemail
      split at h
      · cases h
      · rename_i password' hpassword
        cases h
        obtain ⟨hemail, hat⟩ := Option.filter_eq_some_iff.1 hemail
        obtain ⟨hpassword, hlength⟩ := Option.filter_eq_some_iff.1 hpassword
        exact ⟨hemail, by simpa using hat, hpassword, by simpa using hlength⟩
  · rintro ⟨hemail, hat, hpassword, hlength⟩
    have hat' : ((body.getString "email").filter fun email => email.toList.contains '@') =
        some email :=
      Option.filter_eq_some_iff.2 ⟨hemail, by simpa using hat⟩
    have hlength' : ((body.getString "password").filter fun password =>
        decide (8 ≤ utf16Length password)) = some password :=
      Option.filter_eq_some_iff.2 ⟨hpassword, by simpa using hlength⟩
    simp only [Routes.requireEmailPassword, not_isNull hemail, Bool.false_eq_true, if_false, hat',
      hlength']

theorem truthy_iff {text : String} {value : Option String} :
    truthy value = some text ↔ value = some text ∧ text ≠ "" := by
  simp [truthy, Option.filter_eq_some_iff]

theorem carries_iff {field text : String} :
    truthy (body.getString field) = some text ↔ Carries field body text := by
  rw [truthy_iff]
  exact ⟨fun h => ⟨h.1, h.2⟩, fun h => ⟨h.1, h.2⟩⟩

theorem requireText_iff {field text : String} :
    Routes.requireText field body = .ok text ↔ Carries field body text := by
  rw [← carries_iff]
  constructor
  · intro h
    unfold Routes.requireText at h
    split_ifs at h
    split at h
    · cases h
    · rename_i text' htext
      cases h
      exact htext
  · intro h
    simp [Routes.requireText, not_isNull (truthy_iff.1 h).1, h]

theorem requireEmail_iff {email : String} :
    requireEmail body = .ok email ↔ body.getString "email" = some email ∧ '@' ∈ email.toList := by
  constructor
  · intro h
    unfold requireEmail at h
    split_ifs at h
    split at h
    · cases h
    · rename_i email' hemail
      cases h
      obtain ⟨hemail, hat⟩ := Option.filter_eq_some_iff.1 hemail
      exact ⟨hemail, by simpa using hat⟩
  · rintro ⟨hemail, hat⟩
    have hat' : ((body.getString "email").filter fun email => email.toList.contains '@') =
        some email :=
      Option.filter_eq_some_iff.2 ⟨hemail, by simpa using hat⟩
    simp only [requireEmail, not_isNull hemail, Bool.false_eq_true, if_false, hat']

/-! ### The code of a Google sign-in -/

theorem read_after {α β : Type} {response : FetchResponse β}
    {f : β → GooglePromise (α ⊕ GoogleReply)} {refusal : GoogleReply} {a : α}
    (h : (if response.ok then response.object >>= f else return .inr refusal).After es
      (.pure (.inl a))) :
    ∃ json, response = ⟨true, some (some json)⟩ ∧ (f json).After es (.pure (.inl a)) := by
  obtain ⟨ok, json⟩ := response
  cases ok with
  | false => cases (Prog.After.eq_of_pure h).2
  | true =>
    match json with
    | none => cases (Prog.After.eq_of_raise h).2
    | some none => cases (Prog.After.eq_of_raise h).2
    | some (some json) => exact ⟨json, rfl, h⟩

theorem profileOf_after_iff {accessToken : String} {profile : GoogleProfile} :
    (Routes.profileOf accessToken).After es (.pure (.inl profile)) ↔
      ∃ (json : ProfileJson) (sub email : String), truthy json.sub = some sub ∧
        truthy json.email = some email ∧
        es = [⟨.userinfo ("Bearer " ++ accessToken),
          (⟨true, some (some json)⟩ : FetchResponse ProfileJson)⟩] ∧
        profile = ⟨sub, email, json.emailVerified.getD false⟩ := by
  constructor
  · intro h
    rcases Prog.After.of_call h with ⟨-, hq⟩ | ⟨response, es', rfl, hafter⟩
    · cases hq
    obtain ⟨json, rfl, hread⟩ := read_after hafter
    split at hread
    · rename_i sub email hsub hemail
      obtain ⟨rfl, hprofile⟩ := Prog.After.eq_of_pure hread
      cases hprofile
      exact ⟨json, sub, email, hsub, hemail, rfl, rfl⟩
    · cases (Prog.After.eq_of_pure hread).2
  · rintro ⟨json, sub, email, hsub, hemail, rfl, rfl⟩
    have hshown := (Prog.After.nil (p := Routes.profileOf accessToken)).snoc
      (⟨true, some (some json)⟩ : FetchResponse ProfileJson)
    simpa [FetchResponse.object, hsub, hemail] using hshown

theorem exchange_after_iff {form : List (String × String)} {profile : GoogleProfile} :
    (Routes.exchange form).After es (.pure (.inl profile)) ↔
      ∃ (json : TokenJson) (accessToken : String) (es' : List (Sigma googleSig.Res)),
        truthy json.accessToken = some accessToken ∧
        es = ⟨.token form, (⟨true, some (some json)⟩ : FetchResponse TokenJson)⟩ :: es' ∧
        (Routes.profileOf accessToken).After es' (.pure (.inl profile)) := by
  constructor
  · intro h
    rcases Prog.After.of_call h with ⟨-, hq⟩ | ⟨response, es', rfl, hafter⟩
    · cases hq
    obtain ⟨json, rfl, hread⟩ := read_after hafter
    split at hread
    · rename_i accessToken haccess
      exact ⟨json, accessToken, es', haccess, rfl, hread⟩
    · cases (Prog.After.eq_of_pure hread).2
  · rintro ⟨json, accessToken, es', haccess, rfl, hafter⟩
    refine Prog.After.cons (S := googleSig) (o := .token form)
      (r := (⟨true, some (some json)⟩ : FetchResponse TokenJson)) ?_
    simpa [FetchResponse.object, haccess] using hafter

theorem googleProfile_after_iff {code : Option HeaderValue} {profile : GoogleProfile} :
    (Routes.googleProfile google code).After es (.pure (.inl profile)) ↔
      ∃ text, Routes.codeText code = some text ∧ Shows google text es profile := by
  constructor
  · intro h
    unfold Routes.googleProfile at h
    split at h
    · rename_i clientId clientSecret redirectUri hid hsecret huri
      split at h
      · cases (Prog.After.eq_of_pure h).2
      · rename_i text hcode
        obtain ⟨token, accessToken, es', haccess, rfl, hafter⟩ := exchange_after_iff.1 h
        obtain ⟨json, sub, email, hsub, hemail, rfl, rfl⟩ := profileOf_after_iff.1 hafter
        exact ⟨text, hcode, .profile hid hsecret huri haccess hsub hemail⟩
    · cases (Prog.After.eq_of_pure h).2
  · rintro ⟨text, hcode, hshows⟩
    cases hshows with
    | profile hid hsecret huri haccess hsub hemail =>
      simp only [Routes.googleProfile, hid, hsecret, huri, hcode]
      exact exchange_after_iff.2 ⟨_, _, _, haccess, rfl,
        profileOf_after_iff.2 ⟨_, _, _, hsub, hemail, rfl, rfl⟩⟩

/-! ### The requests -/

theorem decoding_after_iff {read : Except HelixError Call} :
    (decoding read).After es (.pure (.inl c)) ↔ es = [] ∧ read = .ok c := by
  cases read with
  | error e =>
    refine ⟨fun h => ?_, fun h => ?_⟩
    · cases (Prog.After.eq_of_raise h).2
    · cases h.2
  | ok c' =>
    refine ⟨fun h => ?_, ?_⟩
    · obtain ⟨hes, hc⟩ := Prog.After.eq_of_pure h
      cases hc
      exact ⟨hes, rfl⟩
    · rintro ⟨rfl, hc⟩
      cases hc
      exact .nil

theorem map_eq_ok_iff {α β : Type} {read : Except HelixError α} {f : α → β} {b : β} :
    read.map f = .ok b ↔ ∃ a, read = .ok a ∧ f a = b := by
  cases read with
  | error e => simp [Except.map]
  | ok a => simp [Except.map]

/-- **A request is read exactly if it is well formed**, and as what it says. -/
theorem after_iff_reads {r : HttpRequest} :
    (r.decode google).After es (.pure (.inl c)) ↔ Reads google r es c := by
  constructor
  · intro h
    cases r with
    | register body =>
      obtain ⟨rfl, hread⟩ := decoding_after_iff.1 h
      obtain ⟨input, hinput, rfl⟩ := map_eq_ok_iff.1 hread
      obtain ⟨⟨email, password⟩, hbody, rfl⟩ := map_eq_ok_iff.1 hinput
      exact .register (requireEmailPassword_iff.1 hbody)
    | login body =>
      obtain ⟨rfl, hread⟩ := decoding_after_iff.1 h
      obtain ⟨input, hinput, rfl⟩ := map_eq_ok_iff.1 hread
      obtain ⟨⟨email, password⟩, hbody, rfl⟩ := map_eq_ok_iff.1 hinput
      exact .login (requireEmailPassword_iff.1 hbody)
    | refresh body =>
      obtain ⟨rfl, hread⟩ := decoding_after_iff.1 h
      obtain ⟨token, hbody, rfl⟩ := map_eq_ok_iff.1 hread
      exact .refresh (requireText_iff.1 hbody)
    | logout body =>
      obtain ⟨rfl, hread⟩ := decoding_after_iff.1 h
      obtain ⟨token, hbody, rfl⟩ := map_eq_ok_iff.1 hread
      exact .logout (requireText_iff.1 hbody)
    | verifyEmail body =>
      obtain ⟨rfl, hread⟩ := decoding_after_iff.1 h
      obtain ⟨token, hbody, rfl⟩ := map_eq_ok_iff.1 hread
      exact .verifyEmail (requireText_iff.1 hbody)
    | resendVerification body =>
      obtain ⟨rfl, hread⟩ := decoding_after_iff.1 h
      obtain ⟨email, hbody, rfl⟩ := map_eq_ok_iff.1 hread
      obtain ⟨hemail, hat⟩ := requireEmail_iff.1 hbody
      exact .resend hemail hat
    | google => cases (Prog.After.eq_of_pure h).2
    | googleCallback code =>
      obtain ⟨x, hafter, hx⟩ := Prog.After.of_map_pure h
      cases x with
      | inl profile =>
        cases hx
        obtain ⟨text, hcode, hshows⟩ := googleProfile_after_iff.1 hafter
        exact .callback hcode hshows
      | inr reply => cases hx
    | other c' houtside =>
      obtain ⟨rfl, hc⟩ := Prog.After.eq_of_pure h
      cases hc
      exact .other houtside
  · intro h
    cases h with
    | @register body email password h | @login body email password h =>
      have hinput := requireEmailPassword_iff.2 h
      exact decoding_after_iff.2
        ⟨rfl, map_eq_ok_iff.2 ⟨_, map_eq_ok_iff.2 ⟨(email, password), hinput, rfl⟩, rfl⟩⟩
    | refresh h | logout h | verifyEmail h =>
      exact decoding_after_iff.2 ⟨rfl, map_eq_ok_iff.2 ⟨_, requireText_iff.2 h, rfl⟩⟩
    | resend hemail hat =>
      exact decoding_after_iff.2 ⟨rfl, map_eq_ok_iff.2 ⟨_, requireEmail_iff.2 ⟨hemail, hat⟩, rfl⟩⟩
    | callback hcode hshows =>
      have hprofile := googleProfile_after_iff.2 ⟨_, hcode, hshows⟩
      exact hprofile.bind fun x => .pure (x.map Call.loginWithGoogle HttpReply.google)
    | other _ => exact .nil

/-- A request that is answered without the services is one to the Google routes. -/
theorem google_of_after {r : HttpRequest} {a : HttpReply}
    (h : (r.decode google).After es (.pure (.inr a))) : ∃ reply, a = .google reply := by
  -- a body that is read is handed on
  have hread : ∀ {read : Except HelixError Call}, ¬ (decoding read).After es (.pure (.inr a)) := by
    intro read h
    cases read with
    | error e => cases (Prog.After.eq_of_raise h).2
    | ok c => cases (Prog.After.eq_of_pure h).2
  cases r with
  | google =>
    cases (Prog.After.eq_of_pure h).2
    exact ⟨_, rfl⟩
  | googleCallback code =>
    obtain ⟨x, -, hx⟩ := Prog.After.of_map_pure h
    cases x with
    | inl profile => cases hx
    | inr reply =>
      cases hx
      exact ⟨reply, rfl⟩
  | other c' houtside => cases (Prog.After.eq_of_pure h).2
  | _ => exact absurd h hread

/-! ### The runs -/

section Runs

variable {cfg : Config} {G : Google} {core : Core} {P : World core → Op → Prop} {w : World core}
  {v : G.State} {s : Sys (front cfg google G core).machine}

/-- **The HTTP server serves well-formed requests.**  A run of the HTTP server is a run of the
services that ends in the same world.  Every reply is that of a service to what its request says,
with the status of the route; a request that is answered without the services has called none of
them; and the services serve nothing but well-formed requests. -/
theorem served_of_run
    (h : Run (Stepwise ((front cfg google G core).Behind P)) (Sys.init (w, v)) s) :
    ∃ s' : State cfg core, Run (Stepwise P) (Sys.init w) s' ∧ s'.world = s.world.1 ∧
      (∀ t ∈ s.tasks, ∀ status reply, t.prog = .pure (.sent status reply) →
        status = t.call.status ∧ ∃ t' ∈ s'.tasks, t'.prog = .pure reply ∧
          t'.done = Front.served t ∧ Reads google t.call (Front.asked t) t'.call) ∧
      (∀ t ∈ s.tasks, ∀ reply, t.prog = .pure (.google reply) → Front.served t = []) ∧
      ∀ t' ∈ s'.tasks, ∃ t ∈ s.tasks, Reads google t.call (Front.asked t) t'.call := by
  obtain ⟨s', hr, hsim⟩ := Layering.sim_of_run (L := layering cfg google G core) h
  refine ⟨s', hr, hsim.1, ?_, ?_, ?_⟩
  · intro t ht status reply hp
    obtain ⟨i, ht⟩ := List.mem_iff_getElem?.1 ht
    rcases hsim.answered ht hp with ⟨-, hafter⟩ |
      ⟨k, t', reply', ht', hp', hencode, hserved, hafter⟩
    · obtain ⟨_, hreply⟩ := google_of_after hafter
      cases hreply
    · cases hencode
      exact ⟨rfl, t', List.mem_of_getElem? ht', hp', hserved.symm, after_iff_reads.1 hafter⟩
  · intro t ht reply hp
    obtain ⟨i, ht⟩ := List.mem_iff_getElem?.1 ht
    rcases hsim.answered ht hp with ⟨hserved, -⟩ | ⟨_, _, _, -, -, hencode, -⟩
    · exact hserved
    · cases hencode
  · intro t' ht'
    obtain ⟨k, ht'⟩ := List.mem_iff_getElem?.1 ht'
    obtain ⟨i, t, ht, hstage⟩ := hsim.decoded ht'
    cases hstage with
    | serving hdecoded _ _ => exact ⟨t, List.mem_of_getElem? ht, after_iff_reads.1 hdecoded⟩

end Runs

/-- A configured Google sign-in. -/
def GoogleConfig.sample : GoogleConfig :=
  { googleClientId := some "id", googleClientSecret := some "secret",
    googleRedirectUri := some "uri" }

/-- A Google that knows one user. -/
def Google.sample : Google where
  State := Unit
  exec
    | .token _, v => (⟨true, some (some ⟨some "t"⟩)⟩, v)
    | .userinfo _, v => (⟨true, some (some ⟨some "g", some "a@b.c", some true⟩)⟩, v)

/-- The status of a request that has been answered a session. -/
def sessionStatus {cfg : Config} {google : GoogleConfig} {G : Google} {core : Core}
    (t : Task (front cfg google G core).machine) : Option ℕ :=
  match t.prog with
  | .pure (.sent status (.session _ _)) => some status
  | _ => none

theorem prog_of_sessionStatus {cfg : Config} {google : GoogleConfig} {G : Google} {core : Core}
    {t : Task (front cfg google G core).machine} {status : ℕ} (h : sessionStatus t = some status) :
    ∃ account tokens, t.prog = .pure (.sent status (.session account tokens)) := by
  unfold sessionStatus at h
  split at h
  · rename_i status' account tokens hp
    cases h
    exact ⟨account, tokens, hp⟩
  · cases h

/-- A sign-in with a code. -/
theorem served_of_run_callback :
    ∃ s : Sys (front Config.sample GoogleConfig.sample .sample Core.sample).machine,
    ∃ t ∈ s.tasks, ∃ account tokens, t.prog = .pure (.sent 200 (.session account tokens)) ∧
      ∃ c, Reads GoogleConfig.sample t.call (Front.asked t) c := by
  obtain ⟨s, h, hp⟩ := exists_run_of_replay
    (C := Stepwise
      ((front Config.sample GoogleConfig.sample .sample Core.sample).Behind fun _ _ => True))
    (s := Sys.init (World.sample, ()))
    (.start (.googleCallback (some (.one "code"))) :: List.replicate 19 (.step 0))
    (fun s => s.tasks.any fun t => (sessionStatus t == some 200)) (by decide)
  obtain ⟨t, ht, hp⟩ := List.any_eq_true.1 hp
  obtain ⟨account, tokens, hprog⟩ := prog_of_sessionStatus (eq_of_beq hp)
  obtain ⟨s', -, -, hsent, -⟩ := served_of_run h
  obtain ⟨-, t', -, -, -, hreads⟩ := hsent t ht 200 _ hprog
  exact ⟨s, t, ht, account, tokens, hprog, t'.call, hreads⟩

end Http

end HelixServer
