import HelixServer.Async.Solo
import HelixServer.Codec.Base64
import HelixServer.Server
import HelixServer.Tokens.JsonParse
import Mathlib.Data.List.TakeWhile

/-!
# Access tokens are what was issued

A party that knows the signatures inside issued tokens only can present nothing but an issued token:
the text is split at its dots, the last part must be the signature of the others in every character,
and the payload is read back from the part that the issuer wrote (`verifyAccessToken_issued`).

* `NodeText rt` : what `issueAccessToken` has written is decoded as in `Codec`, and parsed as in
  `Json.parse`.
* `Issuance` : what a call of `issueAccessToken` puts into its token.
* `IssueCall` : the call, with the state in which it is made.
* `Knows` : the only signatures inside a text are those of issued tokens.
-/

namespace HelixServer

namespace Tokens

open Async

/-! ### Text -/

/-- The decoding functions of Node, on the texts that `issueAccessToken` writes. -/
structure NodeText (rt : Runtime) : Prop where
  base64UrlDecodeToString_eq : ∀ p : AccessTokenPayload,
    rt.base64UrlDecodeToString (base64Url (utf8 p.stringify)) =
      Codec.decodeUtf8 (Codec.decodeBase64 (base64Url (utf8 p.stringify)).toList)
  jsonParse_eq : ∀ p : AccessTokenPayload, rt.jsonParse p.stringify = Json.parse p.stringify

theorem utf8_injective {s s' : String} (h : utf8 s = utf8 s') : s = s' := by
  rw [← Codec.decodeUtf8_encode s, ← Codec.decodeUtf8_encode s']
  exact congrArg Codec.decodeUtf8 h

theorem sextet_base64UrlChar : ∀ n < 64, Codec.sextet (base64UrlChar n) = some n := by decide

theorem mem_base64UrlChars {bytes : List UInt8} {c : Char} (hc : c ∈ base64UrlChars bytes) :
    ∃ n < 64, c = base64UrlChar n := by
  induction bytes using base64UrlChars.induct with
  | case1 x y z rest ih =>
    have hx := x.toNat_lt
    have hy := y.toNat_lt
    have hz := z.toNat_lt
    simp only [base64UrlChars, List.mem_cons] at hc
    rcases hc with rfl | rfl | rfl | rfl | hc
    · exact ⟨_, by omega, rfl⟩
    · exact ⟨_, by omega, rfl⟩
    · exact ⟨_, by omega, rfl⟩
    · exact ⟨_, by omega, rfl⟩
    · exact ih hc
  | case2 x y =>
    have hx := x.toNat_lt
    have hy := y.toNat_lt
    simp only [base64UrlChars, List.mem_cons, List.not_mem_nil, or_false] at hc
    rcases hc with rfl | rfl | rfl
    · exact ⟨_, by omega, rfl⟩
    · exact ⟨_, by omega, rfl⟩
    · exact ⟨_, by omega, rfl⟩
  | case3 x =>
    have hx := x.toNat_lt
    simp only [base64UrlChars, List.mem_cons, List.not_mem_nil, or_false] at hc
    rcases hc with rfl | rfl
    · exact ⟨_, by omega, rfl⟩
    · exact ⟨_, by omega, rfl⟩
  | case4 => cases hc

theorem base64UrlChar_ne : ∀ n < 64, base64UrlChar n ≠ '.' ∧ base64UrlChar n ≠ '=' := by decide

/-- The values of the characters are grouped into the bytes again. -/
theorem bytesOfSextets_base64UrlChars (bytes : List UInt8) :
    Codec.bytesOfSextets ((base64UrlChars bytes).filterMap Codec.sextet) = bytes := by
  induction bytes using base64UrlChars.induct with
  | case1 a b c rest ih =>
    have ha := a.toNat_lt
    have hb := b.toNat_lt
    have hc := c.toNat_lt
    rw [base64UrlChars, List.filterMap_cons_some (sextet_base64UrlChar _ (by omega)),
      List.filterMap_cons_some (sextet_base64UrlChar _ (by omega)),
      List.filterMap_cons_some (sextet_base64UrlChar _ (by omega)),
      List.filterMap_cons_some (sextet_base64UrlChar _ (by omega)), Codec.bytesOfSextets_three, ih]
  | case2 a b =>
    have ha := a.toNat_lt
    have hb := b.toNat_lt
    rw [base64UrlChars, List.filterMap_cons_some (sextet_base64UrlChar _ (by omega)),
      List.filterMap_cons_some (sextet_base64UrlChar _ (by omega)),
      List.filterMap_cons_some (sextet_base64UrlChar _ (by omega)), List.filterMap_nil,
      Codec.bytesOfSextets_two]
  | case3 a =>
    have ha := a.toNat_lt
    rw [base64UrlChars, List.filterMap_cons_some (sextet_base64UrlChar _ (by omega)),
      List.filterMap_cons_some (sextet_base64UrlChar _ (by omega)), List.filterMap_nil,
      Codec.bytesOfSextets_one]
  | case4 => rfl

theorem decodeBase64_base64UrlChars (bytes : List UInt8) :
    Codec.decodeBase64 (base64UrlChars bytes) = bytes := by
  have hall : (base64UrlChars bytes).takeWhile (· != '=') = base64UrlChars bytes := by
    rw [List.takeWhile_eq_self_iff]
    intro c hc
    obtain ⟨n, hn, rfl⟩ := mem_base64UrlChars hc
    exact bne_iff_ne.2 (base64UrlChar_ne n hn).2
  rw [Codec.decodeBase64, hall, bytesOfSextets_base64UrlChars]

theorem dot_notMem_base64Url (bytes : List UInt8) : '.' ∉ (base64Url bytes).toList := by
  rw [base64Url, String.toList_ofList]
  intro hdot
  obtain ⟨n, hn, hc⟩ := mem_base64UrlChars hdot
  exact (base64UrlChar_ne n hn).1 hc.symm

theorem splitOn_three {a b c : String} (ha : '.' ∉ a.toList) (hb : '.' ∉ b.toList)
    (hc : '.' ∉ c.toList) :
    ((a ++ "." ++ b ++ "." ++ c).toList.splitOn '.').map String.ofList = [a, b, c] := by
  have hjoin : (a ++ "." ++ b ++ "." ++ c).toList =
      ['.'].intercalate [a.toList, b.toList, c.toList] := by
    simp [String.toList_append, List.intercalate_cons_cons]
  rw [hjoin, List.splitOn_intercalate]
  · simp
  · simp [ha, hb, hc]
  · simp

theorem eq_of_splitOn {t a b c : String}
    (h : (t.toList.splitOn '.').map String.ofList = [a, b, c]) : t = a ++ "." ++ b ++ "." ++ c := by
  have hparts : t.toList.splitOn '.' = [a.toList, b.toList, c.toList] := by
    have hmap := congrArg (List.map String.toList) h
    simpa [Function.comp_def] using hmap
  have hjoin : ['.'].intercalate (t.toList.splitOn '.') = t.toList := List.intercalate_splitOn '.'
  rw [hparts] at hjoin
  rw [← String.toList_inj, ← hjoin]
  simp [String.toList_append, List.intercalate_cons_cons]

/-! ### Issued tokens -/

/-- What a call of `issueAccessToken` is given, the time it reads and the nonce it draws. -/
structure Issuance where
  accountId : String
  scope : List String
  ttlSeconds : ℕ
  /-- `Date.now()`. -/
  time : ℕ
  nonce : List UInt8

namespace Issuance

/-- What the token says. -/
def payload (i : Issuance) : AccessTokenPayload where
  accountId := i.accountId
  scope := i.scope
  iat := i.time / 1000
  exp := i.time / 1000 + i.ttlSeconds
  jti := base64Url i.nonce

/-- The text that is signed. -/
def signingInput (i : Issuance) : String :=
  base64Url (utf8 accessTokenHeader) ++ "." ++ base64Url (utf8 i.payload.stringify)

/-- The token. -/
def token (rt : Runtime) (secret : String) (i : Issuance) : String :=
  encodeAccessToken rt secret i.payload

end Issuance

section

variable {rt : Runtime} {secret t : String} {now : ℕ} {i : Issuance} {payload : AccessTokenPayload}

theorem token_eq : i.token rt secret =
    i.signingInput ++ "." ++ base64Url (rt.hmacSha256 secret i.signingInput) := rfl

theorem text_eq_of_append {a a' b b' : String} (hb : '.' ∉ b.toList) (hb' : '.' ∉ b'.toList)
    (h : a ++ "." ++ b = a' ++ "." ++ b') : a = a' := by
  have hlist : a.toList ++ '.' :: b.toList = a'.toList ++ '.' :: b'.toList := by
    simpa [String.toList_append] using congrArg String.toList h
  have hreverse := congrArg (fun cs => cs.reverse.dropWhile (· != '.')) hlist
  -- read from the end, the first dot is the one in front of `b`
  have hdrop : ∀ {x y : List Char}, '.' ∉ y →
      (x ++ '.' :: y).reverse.dropWhile (· != '.') = '.' :: x.reverse := by
    intro x y hy
    rw [List.reverse_append, List.reverse_cons, List.append_assoc, List.singleton_append,
      List.dropWhile_append_of_pos]
    · rfl
    · intro c hc
      simp only [bne_iff_ne]
      rintro rfl
      exact hy (List.mem_reverse.1 hc)
  simp only [hdrop hb, hdrop hb', List.cons.injEq, true_and] at hreverse
  exact String.toList_inj.1 (List.reverse_injective hreverse)

theorem verifyAccessToken_signed {headerPart bodyPart : String} {payload : Json}
    (hheader : '.' ∉ headerPart.toList) (hbody : '.' ∉ bodyPart.toList)
    (ht : t = headerPart ++ "." ++ bodyPart ++ "." ++
      base64Url (rt.hmacSha256 secret (headerPart ++ "." ++ bodyPart)))
    (hparse : rt.jsonParse (rt.base64UrlDecodeToString bodyPart) = some payload) {exp : ℚ}
    (hexp : payload.prop "exp" = some (.num exp)) :
    verifyAccessToken rt secret t now =
      if exp ≤ (now / 1000 : ℕ) then .error .accessTokenExpired else .ok (.ofJson payload) := by
  have hsplit := splitOn_three hheader hbody
    (dot_notMem_base64Url (rt.hmacSha256 secret (headerPart ++ "." ++ bodyPart)))
  rw [← ht] at hsplit
  have hobj : payload ≠ .null := by
    rintro rfl
    cases hexp
  simp only [verifyAccessToken, hsplit, beq_self_eq_true, if_true, hparse]
  cases payload with
  | null => exact absurd rfl hobj
  | _ => simp only [hexp]

theorem verifyAccessToken_token (hnode : NodeText rt) :
    verifyAccessToken rt secret (i.token rt secret) now =
      if Codec.toDouble i.payload.exp 1 ≤ (now / 1000 : ℕ) then .error .accessTokenExpired
      else .ok (.ofJson i.payload.parsed) := by
  have hparse : rt.jsonParse (rt.base64UrlDecodeToString (base64Url (utf8 i.payload.stringify))) =
      some i.payload.parsed := by
    rw [hnode.base64UrlDecodeToString_eq, base64Url, String.toList_ofList,
      decodeBase64_base64UrlChars, utf8, Codec.decodeUtf8_encode, hnode.jsonParse_eq]
    exact i.payload.parse_stringify
  exact verifyAccessToken_signed (dot_notMem_base64Url _)
    (dot_notMem_base64Url _) token_eq hparse rfl

theorem accountId_of_token (hnode : NodeText rt)
    (hok : verifyAccessToken rt secret (i.token rt secret) now = .ok payload) :
    payload.accountId = i.accountId := by
  rw [verifyAccessToken_token hnode] at hok
  split_ifs at hok
  cases hok
  exact i.payload.ofJson_parsed_accountId

/-- An issued token is valid until it expires, and has the payload it was issued with. -/
theorem verifyAccessToken_safe (hnode : NodeText rt) (hsafe : i.payload.Safe) :
    verifyAccessToken rt secret (i.token rt secret) now =
      if now / 1000 < i.payload.exp then .ok i.payload else .error .accessTokenExpired := by
  rw [verifyAccessToken_token hnode, Codec.toDouble_one hsafe.2, hsafe.ofJson_parsed]
  by_cases hlt : now / 1000 < i.payload.exp
  · rw [if_neg, if_pos hlt]
    exact_mod_cast Nat.not_le.2 hlt
  · rw [if_pos, if_neg hlt]
    exact_mod_cast Nat.not_lt.1 hlt

theorem verifyAccessToken_unsigned
    (h : ∀ text, t ≠ text ++ "." ++ base64Url (rt.hmacSha256 secret text)) :
    verifyAccessToken rt secret t now = .error .accessTokenInvalid := by
  rw [verifyAccessToken]
  split
  · rename_i headerPart bodyPart signaturePart hparts
    have hne : utf8 signaturePart ≠
        utf8 (base64Url (rt.hmacSha256 secret (headerPart ++ "." ++ bodyPart))) := by
      intro hsame
      have ht := eq_of_splitOn hparts
      rw [utf8_injective hsame] at ht
      exact h _ ht
    simp only [beq_eq_false_iff_ne.2 hne, Bool.false_eq_true, if_false]
  · rfl

end

/-! ### The calls -/

/-- A call of `issueAccessToken`: its arguments, and the state in which it is made. -/
structure IssueCall (core : Core) where
  accountId : String
  ttlSeconds : ℕ
  scope : List String
  world : World core
  /-- The numbers that it computes are exact. -/
  safe : world.now / 1000 + ttlSeconds < 2 ^ 53

section

variable {cfg : Config} {core : Core} {secret t : String} {now : ℕ} {calls : List (IssueCall core)}

/-- The call returns a token. -/
def IssueCall.Returns (cfg : Config) (secret : String) (c : IssueCall core) (t : String) : Prop :=
  (server cfg core).Returns
    (issueAccessToken cfg.runtime c.accountId secret c.ttlSeconds c.scope) c.world t

/-- What the call puts into its token. -/
def IssueCall.issuance (cfg : Config) (c : IssueCall core) : Issuance :=
  ⟨c.accountId, c.scope, c.ttlSeconds, c.world.now, cfg.runtime.randomBytes (c.world.draws + 1) 9⟩

theorem IssueCall.returns_iff {c : IssueCall core} :
    c.Returns cfg secret t ↔ t = (c.issuance cfg).token cfg.runtime secret := by
  rw [Returns, issueAccessToken, dateNow]
  exact (returns_call (M := server cfg core) (Op.exec_runtime _ _)).trans <|
    (returns_call (M := server cfg core) (Op.exec_runtime _ _)).trans returns_pure

theorem IssueCall.payload_safe {c : IssueCall core} : (c.issuance cfg).payload.Safe :=
  ⟨Nat.lt_of_le_of_lt (Nat.le_add_right _ _) c.safe, c.safe⟩

/-- The only signatures inside the text are those of issued tokens. -/
def Knows (cfg : Config) (secret : String) (calls : List (IssueCall core)) (t : String) : Prop :=
  ∀ text, t = text ++ "." ++ base64Url (cfg.runtime.hmacSha256 secret text) →
    ∃ c ∈ calls, text = (c.issuance cfg).signingInput

theorem knows_of_returns {c : IssueCall core} (hc : c ∈ calls) (ht : c.Returns cfg secret t) :
    Knows cfg secret calls t := by
  obtain rfl := IssueCall.returns_iff.1 ht
  intro text htext
  exact ⟨c, hc, text_eq_of_append (dot_notMem_base64Url _) (dot_notMem_base64Url _)
    (htext.symm.trans token_eq)⟩

/-- **Access tokens are exactly what was issued.**  A text that holds no other signatures than those
of issued tokens is valid if and only if a call of `issueAccessToken` has returned it and it has not
expired, with the payload that the call has put in; an issued token that has expired, and any other
text, gives the error that says so. -/
theorem verifyAccessToken_issued (hnode : NodeText cfg.runtime)
    (hknows : Knows cfg secret calls t) :
    (∀ payload, verifyAccessToken cfg.runtime secret t now = .ok payload ↔
        ∃ c ∈ calls, c.Returns cfg secret t ∧ now / 1000 < (c.issuance cfg).payload.exp ∧
          payload = (c.issuance cfg).payload) ∧
      (∀ c ∈ calls, c.Returns cfg secret t → (c.issuance cfg).payload.exp ≤ now / 1000 →
        verifyAccessToken cfg.runtime secret t now = .error .accessTokenExpired) ∧
      ((∀ c ∈ calls, ¬ c.Returns cfg secret t) →
        verifyAccessToken cfg.runtime secret t now = .error .accessTokenInvalid) := by
  have hinvalid : (∀ c ∈ calls, ¬ c.Returns cfg secret t) →
      verifyAccessToken cfg.runtime secret t now = .error .accessTokenInvalid := by
    intro hnot
    refine verifyAccessToken_unsigned fun text ht => ?_
    obtain ⟨c, hc, rfl⟩ := hknows text ht
    exact hnot c hc (IssueCall.returns_iff.2 (ht.trans token_eq.symm))
  refine ⟨fun payload => ⟨fun hok => ?_, ?_⟩, ?_, hinvalid⟩
  · by_cases hissued : ∃ c ∈ calls, c.Returns cfg secret t
    · obtain ⟨c, hc, ht⟩ := hissued
      rw [IssueCall.returns_iff.1 ht, verifyAccessToken_safe hnode c.payload_safe] at hok
      split_ifs at hok with hlt
      cases hok
      exact ⟨c, hc, ht, hlt, rfl⟩
    · rw [hinvalid fun c hc ht => hissued ⟨c, hc, ht⟩] at hok
      cases hok
  · rintro ⟨c, -, ht, hlt, rfl⟩
    rw [IssueCall.returns_iff.1 ht, verifyAccessToken_safe hnode c.payload_safe, if_pos hlt]
  · intro c _ ht hle
    rw [IssueCall.returns_iff.1 ht, verifyAccessToken_safe hnode c.payload_safe,
      if_neg (Nat.not_lt.2 hle)]

end

/-- The sample runtime with the decoding functions of Node. -/
def sampleRuntime : Runtime :=
  { Runtime.sample with
    base64UrlDecodeToString input := Codec.decodeUtf8 (Codec.decodeBase64 input.toList)
    jsonParse := Json.parse }

theorem NodeText.of_forall {rt : Runtime} (hdecode : ∀ input, rt.base64UrlDecodeToString input =
      Codec.decodeUtf8 (Codec.decodeBase64 input.toList))
    (hparse : ∀ input, rt.jsonParse input = Json.parse input) : NodeText rt :=
  ⟨fun _ => hdecode _, fun _ => hparse _⟩

theorem nodeText_sample : NodeText sampleRuntime := .of_forall (fun _ => rfl) fun _ => rfl

/-- The sample server with them. -/
def sampleConfig : Config := { Config.sample with runtime := sampleRuntime }

/-- A token for fifteen minutes. -/
def sampleCall : IssueCall Core.sample := ⟨"acct:é", 900, ["account"], World.sample, by decide⟩

theorem verifyAccessToken_issued_sample : ∃ t, sampleCall.Returns sampleConfig "secret" t ∧
    verifyAccessToken sampleRuntime "secret" t 6000 =
      .ok (sampleCall.issuance sampleConfig).payload := by
  have ht : sampleCall.Returns sampleConfig "secret"
      ((sampleCall.issuance sampleConfig).token sampleRuntime "secret") :=
    IssueCall.returns_iff.2 rfl
  have hissued := @verifyAccessToken_issued _ _ _ _ 6000 _ (show NodeText sampleConfig.runtime from
    nodeText_sample) (knows_of_returns (List.mem_singleton_self sampleCall) ht)
  exact ⟨_, ht, (hissued.1 _).2 ⟨sampleCall, List.mem_singleton_self _, ht, by decide, rfl⟩⟩

end Tokens

end HelixServer
