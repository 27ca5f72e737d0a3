import HelixServer.Model.World

/-!
# Access tokens and opaque tokens

`services/auth/tokens.ts`: an access token is `header.body.signature`, with the JSON text of header
and body in base64url and an HMAC over the first two parts; refresh tokens and e-mail verification
tokens are opaque random strings, of which only the hash is stored.

* `utf8`, `base64Url` : the encodings, on lists of bytes.
* `quoteJson` : `JSON.stringify` of a string.
* `encodeAccessToken` : the token with a given payload; `issueAccessToken` draws its nonce and reads
  the clock.
* `verifyAccessToken` : the payload of a token that is signed and has not expired.
* `opaqueToken` : `generateOpaqueToken` on given random bytes.
-/

namespace HelixServer

/-- The UTF-8 bytes of a string. -/
def utf8 (s : String) : List UInt8 := s.toUTF8.data.toList

/-- A character of the base64url alphabet. -/
def base64UrlChar (n : ℕ) : Char :=
  if n < 26 then Char.ofNat (65 + n)
  else if n < 52 then Char.ofNat (71 + n)
  else if n < 62 then Char.ofNat (n - 4)
  else if n = 62 then '-' else '_'

/-- The base64url characters of a list of bytes, without padding. -/
def base64UrlChars : List UInt8 → List Char
  | a :: b :: c :: rest =>
    base64UrlChar (a.toNat / 4) :: base64UrlChar (a.toNat % 4 * 16 + b.toNat / 16) ::
      base64UrlChar (b.toNat % 16 * 4 + c.toNat / 64) :: base64UrlChar (c.toNat % 64) ::
      base64UrlChars rest
  | [a, b] =>
    [base64UrlChar (a.toNat / 4), base64UrlChar (a.toNat % 4 * 16 + b.toNat / 16),
      base64UrlChar (b.toNat % 16 * 4)]
  | [a] => [base64UrlChar (a.toNat / 4), base64UrlChar (a.toNat % 4 * 16)]
  | [] => []

/-- `Buffer.toString('base64url')`. -/
def base64Url (bytes : List UInt8) : String := String.ofList (base64UrlChars bytes)

/-- The characters `JSON.stringify` writes for one character of a string. -/
def quoteJsonChar (c : Char) : List Char :=
  match c.toNat with
  | 0x08 => ['\\', 'b']
  | 0x09 => ['\\', 't']
  | 0x0A => ['\\', 'n']
  | 0x0C => ['\\', 'f']
  | 0x0D => ['\\', 'r']
  | 0x22 => ['\\', '"']
  | 0x5C => ['\\', '\\']
  | n => if n < 0x20 then
      ['\\', 'u', '0', '0', Char.ofNat (48 + n / 16), hexDigit (nibble n)] else [c]

/-- `JSON.stringify` of a string. -/
def quoteJson (s : String) : String :=
  "\"" ++ String.ofList (s.toList.flatMap quoteJsonChar) ++ "\""

/-- `JSON.stringify` of a payload, with the keys in the order of the object literal. -/
def AccessTokenPayload.stringify (p : AccessTokenPayload) : String :=
  "\x7b\"accountId\":" ++ quoteJson p.accountId ++
    ",\"scope\":[" ++ String.intercalate "," (p.scope.map quoteJson) ++
    "],\"iat\":" ++ toString p.iat ++ ",\"exp\":" ++ toString p.exp ++
    ",\"jti\":" ++ quoteJson p.jti ++ "\x7d"

/-- The text of the header `(alg, typ) = (HS256, JWT)`. -/
def accessTokenHeader : String := "\x7b\"alg\":\"HS256\",\"typ\":\"JWT\"\x7d"

/-- The access token with payload `p` under `secret`. -/
def encodeAccessToken (rt : Runtime) (secret : String) (p : AccessTokenPayload) : String :=
  let signingInput := base64Url (utf8 accessTokenHeader) ++ "." ++ base64Url (utf8 p.stringify)
  signingInput ++ "." ++ base64Url (rt.hmacSha256 secret signingInput)

/-- `Date.now()`. -/
def dateNow : Promise ℕ := await (.runtime .now)

/-- `randomBytes(size)`. -/
def randomBytes (size : ℕ) : Promise (List UInt8) := await (.runtime (.randomBytes size))

/-- `issueAccessToken`. -/
def issueAccessToken (rt : Runtime) (accountId secret : String) (ttlSeconds : ℕ)
    (scope : List String := ["account"]) : Promise String := do
  let now := (← dateNow) / 1000
  let jti := base64Url (← randomBytes 9)
  return encodeAccessToken rt secret
    { accountId := accountId, scope := scope, iat := now, exp := now + ttlSeconds, jti := jti }

/-- The strings of a JSON array. -/
def Json.strings : Json → List String
  | .arr l => l.filterMap asString
  | _ => []

/-- The integer part of a JSON number. -/
def Json.floor : Json → ℕ
  | .num n => n.floor.toNat
  | _ => 0

/-- The parsed payload of a token.  An `accountId` that is missing or no string is the id of no
account, as the empty string is. -/
def AccessTokenPayload.ofJson (payload : Json) : AccessTokenPayload where
  accountId := (payload.getString "accountId").getD ""
  scope := ((payload.prop "scope").map Json.strings).getD []
  iat := ((payload.prop "iat").map Json.floor).getD 0
  exp := ((payload.prop "exp").map Json.floor).getD 0
  jti := (payload.getString "jti").getD ""

/-- `verifyAccessToken`, at the time `now`. -/
def verifyAccessToken (rt : Runtime) (secret token : String) (now : ℕ) :
    Except HelixError AccessTokenPayload :=
  match (token.toList.splitOn '.').map String.ofList with
  | [headerPart, bodyPart, signaturePart] =>
    let expectedSignature := base64Url (rt.hmacSha256 secret (headerPart ++ "." ++ bodyPart))
    if utf8 signaturePart == utf8 expectedSignature then
      match rt.jsonParse (rt.base64UrlDecodeToString bodyPart) with
      | none => .error .accessTokenInvalid
      -- `payload.exp` of `null` throws
      | some .null => .error .typeError
      | some payload =>
        match payload.prop "exp" with
        | some (.num exp) =>
          if exp ≤ (now / 1000 : ℕ) then .error .accessTokenExpired
          else .ok (.ofJson payload)
        | _ => .error .accessTokenExpired
    else .error .accessTokenInvalid
  | _ => .error .accessTokenInvalid

theorem verifyAccessToken_ok {rt : Runtime} {secret token : String} {now : ℕ}
    {payload : AccessTokenPayload} (h : verifyAccessToken rt secret token now = .ok payload) :
    ∃ headerPart bodyPart signaturePart json,
      (token.toList.splitOn '.').map String.ofList = [headerPart, bodyPart, signaturePart] ∧
        rt.jsonParse (rt.base64UrlDecodeToString bodyPart) = some json ∧
          payload = .ofJson json := by
  unfold verifyAccessToken at h
  split at h
  · rename_i headerPart bodyPart signaturePart hparts
    dsimp only at h
    split at h
    · split at h
      · cases h
      · cases h
      · rename_i json _ hjson
        split at h
        · split_ifs at h
          cases h
          exact ⟨headerPart, bodyPart, signaturePart, json, hparts, hjson, rfl⟩
        · cases h
    · cases h
  · cases h

theorem verifyAccessToken_unique {rt : Runtime} {secret token : String} {now now' : ℕ}
    {payload payload' : AccessTokenPayload}
    (h : verifyAccessToken rt secret token now = .ok payload)
    (h' : verifyAccessToken rt secret token now' = .ok payload') : payload = payload' := by
  obtain ⟨_, b, _, json, hparts, hjson, rfl⟩ := verifyAccessToken_ok h
  obtain ⟨_, b', _, json', hparts', hjson', rfl⟩ := verifyAccessToken_ok h'
  have hb : b = b' := by
    have heq := hparts.symm.trans hparts'
    simp only [List.cons.injEq] at heq
    exact heq.2.1
  subst hb
  obtain rfl := Option.some.inj (hjson.symm.trans hjson')
  rfl

/-- The opaque token with the given random bytes. -/
def opaqueToken (kind : String) (bytes : List UInt8) : String := kind ++ "_" ++ base64Url bytes

/-- `generateOpaqueToken`. -/
def generateOpaqueToken (kind : String) : Promise String := do
  return opaqueToken kind (← randomBytes 32)

/-- `generateRefreshToken`. -/
def generateRefreshToken : Promise String := generateOpaqueToken "rft"

/-- `hashOpaqueToken`. -/
def hashOpaqueToken (rt : Runtime) (token : String) : String := rt.sha256Hex token

/-- `hashRefreshToken`. -/
def hashRefreshToken (rt : Runtime) (token : String) : String := hashOpaqueToken rt token

end HelixServer
