import HelixServer.Services.KeyCustody

/-!
# Account DIDs and the route that serves them

An account's DID is `did:web:<domain>:accounts:<id>`, and its document is served at
`GET /accounts/:accountId/did.json`.  A did:web resolver splits the identifier at every `:`, so it
arrives at that route only if the identifier gives it exactly two segments after the host.  The
ids that the account drivers make are `acct:…`, which gives it three
(`not_resolvesToRoute_makeId`).

## Main definitions

* `didWebUrl did` : the URL that the did:web method resolves `did` to.
* `accountIdOfPath path` : the `accountId` with which the route answers a path.
* `ResolvesToRoute didDomain accountId` : the DID of the account resolves to its route.
-/

namespace HelixServer

namespace Identity

/-! ### Percent-decoding -/

/-- The UTF-8 bytes of a text with its percent-encoded bytes decoded, if it is well formed. -/
def percentBytes : List Char → Option (List UInt8)
  | [] => some []
  | '%' :: a :: b :: rest => do
    let x ← Codec.hexValue a
    let y ← Codec.hexValue b
    let bytes ← percentBytes rest
    return UInt8.ofNat (x * 16 + y) :: bytes
  | '%' :: _ => none
  | c :: rest => do
    let bytes ← percentBytes rest
    return String.utf8EncodeChar c ++ bytes

/-- `decodeURIComponent`, `none` where it throws. -/
def decodeURIComponent (text : String) : Option String := do
  let bytes ← percentBytes text.toList
  String.fromUTF8? bytes.toByteArray

theorem percentBytes_of_plain {cs : List Char} (h : '%' ∉ cs) :
    percentBytes cs = some (cs.flatMap String.utf8EncodeChar) := by
  induction cs with
  | nil => rfl
  | cons c cs ih =>
    obtain ⟨hc, hcs⟩ := not_or.1 (fun hm => h (List.mem_cons.2 hm))
    have hc' : c ≠ '%' := fun he => hc he.symm
    rw [percentBytes, ih hcs]
    · rfl
    · rintro a b rest he -
      exact hc' he
    · exact fun he => hc' he

theorem decodeURIComponent_of_plain {text : String} (h : '%' ∉ text.toList) :
    decodeURIComponent text = some text := by
  have hv : ByteArray.IsValidUTF8 text.toList.utf8Encode := ByteArray.isValidUTF8_utf8Encode
  have hbytes : (text.toList.flatMap String.utf8EncodeChar).toByteArray = text.toList.utf8Encode :=
    rfl
  simp only [decodeURIComponent, percentBytes_of_plain h, Option.bind_eq_bind, Option.bind_some,
    hbytes, String.fromUTF8?, hv, dite_true, Option.some.injEq]
  rw [← String.toByteArray_inj]
  simp [String.fromUTF8]

/-! ### Paths -/

/-- `'/' + segments.join('/')`, and nothing for no segments. -/
def joinPath (segments : List String) : List Char := segments.flatMap fun s => '/' :: s.toList

theorem splitOn_joinPath (segments : List String) :
    (joinPath segments).splitOn '/' = [] :: segments.flatMap fun s => s.toList.splitOn '/' := by
  induction segments with
  | nil => rfl
  | cons s segments ih =>
    have hnil : ∀ rest : List Char, ('/' :: rest).splitOn '/' = [] :: rest.splitOn '/' :=
      fun rest => List.splitOn_append_cons_self_of_not_mem List.not_mem_nil rest
    cases segments with
    | nil => simp [joinPath, hnil]
    | cons s' segments =>
      have hjoin : joinPath (s :: s' :: segments) =
          '/' :: (s.toList ++ '/' :: (s'.toList ++ joinPath segments)) := by simp [joinPath]
      have hrest : (joinPath (s' :: segments)).splitOn '/' =
          [] :: (s'.toList ++ joinPath segments).splitOn '/' := by
        rw [show joinPath (s' :: segments) = '/' :: (s'.toList ++ joinPath segments) by
          simp [joinPath], hnil]
      rw [hjoin, hnil, List.splitOn_append_cons_self, List.flatMap_cons,
        List.cons.inj (hrest.symm.trans ih) |>.2]

theorem length_lt_splitOn_joinPath (segments : List String) :
    segments.length < ((joinPath segments).splitOn '/').length := by
  rw [splitOn_joinPath, List.length_cons, Nat.lt_succ_iff]
  induction segments with
  | nil => exact Nat.le_refl _
  | cons s segments ih =>
    have hpos : 0 < (s.toList.splitOn '/').length :=
      List.length_pos_iff.2 (List.splitOn_ne_nil _ _)
    simp only [List.flatMap_cons, List.length_append, List.length_cons]
    omega

theorem two_le_length_splitOn {c : Char} {text : List Char} (h : c ∈ text) :
    2 ≤ (text.splitOn c).length := by
  obtain ⟨xs, ys, rfl⟩ := List.append_of_mem h
  have hxs : 0 < (xs.splitOn c).length := List.length_pos_iff.2 (List.splitOn_ne_nil _ _)
  have hys : 0 < (ys.splitOn c).length := List.length_pos_iff.2 (List.splitOn_ne_nil _ _)
  rw [List.splitOn_append_cons_self, List.length_append]
  omega

/-! ### Resolution -/

/-- The parts of a URL that a resolver makes. -/
structure Url where
  host : String
  path : String
  deriving DecidableEq

/-- The did:web method: the segments of the identifier are the host and the path of a `did.json`. -/
def didWebUrl (did : String) : Option Url :=
  match did.toList.splitOn ':' with
  | scheme :: method :: host :: segments =>
    if scheme = "did".toList ∧ method = "web".toList then do
      let host ← decodeURIComponent (String.ofList host)
      let segments ← segments.mapM fun s => decodeURIComponent (String.ofList s)
      return ⟨host, String.ofList (joinPath (segments ++ ["did.json"]))⟩
    else none
  | _ => none

/-- `GET /accounts/:accountId/did.json` : the `accountId` in a path that the route matches. -/
def accountIdOfPath (path : String) : Option String :=
  match path.toList.splitOn '/' with
  | [root, accounts, accountId, file] =>
    if root = [] ∧ accounts = "accounts".toList ∧ file = "did.json".toList then
      decodeURIComponent (String.ofList accountId)
    else none
  | _ => none

/-- The DID of the account resolves to a URL at `didDomain` whose path the route matches with the
id of the account, so that the route looks up the DID that was resolved. -/
def ResolvesToRoute (didDomain accountId : String) : Prop :=
  ∃ url, didWebUrl (buildAccountIssuerDid didDomain accountId) = some url ∧ url.host = didDomain ∧
    accountIdOfPath url.path = some accountId

theorem splitOn_buildAccountIssuerDid (didDomain accountId : String) :
    (buildAccountIssuerDid didDomain accountId).toList.splitOn ':' =
      "did".toList :: "web".toList :: (didDomain.toList.splitOn ':' ++
        "accounts".toList :: accountId.toList.splitOn ':') := by
  have htext : (buildAccountIssuerDid didDomain accountId).toList =
      "did".toList ++ ':' :: ("web".toList ++ ':' :: (didDomain.toList ++ ':' ::
        ("accounts".toList ++ ':' :: accountId.toList))) := by
    simp [buildAccountIssuerDid]
  rw [htext, List.splitOn_append_cons_self_of_not_mem (by decide),
    List.splitOn_append_cons_self_of_not_mem (by decide), List.splitOn_append_cons_self,
    List.splitOn_append_cons_self_of_not_mem (by decide)]

theorem length_of_mapM {α β : Type} {f : α → Option β} {xs : List α} {ys : List β}
    (h : xs.mapM f = some ys) : ys.length = xs.length := by
  induction xs generalizing ys with
  | nil => cases h; rfl
  | cons x xs ih =>
    simp only [List.mapM_cons, Option.bind_eq_bind, Option.bind_eq_some_iff] at h
    obtain ⟨y, -, zs, hzs, hys⟩ := h
    cases hys
    rw [List.length_cons, List.length_cons, ih hzs]

theorem length_of_accountIdOfPath {segments : List String} {accountId : String}
    (h : accountIdOfPath (String.ofList (joinPath segments)) = some accountId) :
    segments.length ≤ 3 := by
  have hlt := length_lt_splitOn_joinPath segments
  simp only [accountIdOfPath, String.toList_ofList] at h
  split at h
  · rename_i heq
    rw [heq] at hlt
    exact Nat.le_of_lt_succ hlt
  · cases h

/-- **A colon breaks the resolution**: in the domain as much as in the id. -/
theorem ResolvesToRoute.colon_not_mem {didDomain accountId : String}
    (h : ResolvesToRoute didDomain accountId) :
    ':' ∉ didDomain.toList ∧ ':' ∉ accountId.toList := by
  obtain ⟨url, hurl, -, hid⟩ := h
  rw [didWebUrl, splitOn_buildAccountIssuerDid] at hurl
  obtain ⟨host, ports, hd⟩ := List.exists_cons_of_ne_nil (List.splitOn_ne_nil ':' didDomain.toList)
  simp only [hd, List.cons_append, and_self, if_true, Option.bind_eq_bind,
    Option.bind_eq_some_iff] at hurl
  obtain ⟨host', -, segments, hsegments, hpath⟩ := hurl
  cases hpath
  -- the path has a segment for every further segment of the DID, and `did.json`
  have hlen := length_of_mapM hsegments
  have hle := length_of_accountIdOfPath hid
  simp only [List.length_append, List.length_cons, List.length_nil] at hlen hle
  have hpos : 0 < (accountId.toList.splitOn ':').length :=
    List.length_pos_iff.2 (List.splitOn_ne_nil _ _)
  constructor
  · intro hm
    have h2 := two_le_length_splitOn hm
    rw [hd, List.length_cons] at h2
    omega
  · intro hm
    have h2 := two_le_length_splitOn hm
    omega

/-- The route serves the DIDs of the ids and domains without reserved characters. -/
theorem resolvesToRoute_iff {didDomain accountId : String} (hd : '%' ∉ didDomain.toList)
    (ha : '%' ∉ accountId.toList) (hs : '/' ∉ accountId.toList) :
    ResolvesToRoute didDomain accountId ↔ ':' ∉ didDomain.toList ∧ ':' ∉ accountId.toList := by
  refine ⟨ResolvesToRoute.colon_not_mem, fun ⟨hcd, hca⟩ => ?_⟩
  have haccounts : decodeURIComponent "accounts" = some "accounts" :=
    decodeURIComponent_of_plain (by decide)
  refine ⟨⟨didDomain, String.ofList (joinPath (["accounts", accountId] ++ ["did.json"]))⟩, ?_, rfl,
    ?_⟩
  · rw [didWebUrl, splitOn_buildAccountIssuerDid, List.splitOn_eq_singleton hcd,
      List.splitOn_eq_singleton hca]
    simp only [List.cons_append, List.nil_append, and_self, if_true, String.ofList_toList,
      List.mapM_cons, List.mapM_nil, decodeURIComponent_of_plain hd, decodeURIComponent_of_plain ha,
      haccounts]
    rfl
  · have hsplit : (joinPath (["accounts", accountId] ++ ["did.json"])).splitOn '/' =
        [[], "accounts".toList, accountId.toList, "did.json".toList] := by
      rw [splitOn_joinPath]
      simp only [List.cons_append, List.nil_append, List.flatMap_cons, List.flatMap_nil,
        List.splitOn_eq_singleton hs,
        List.splitOn_eq_singleton (show '/' ∉ "accounts".toList by decide),
        List.splitOn_eq_singleton (show '/' ∉ "did.json".toList by decide)]
    rw [accountIdOfPath, String.toList_ofList, hsplit]
    simp only [and_self, if_true, String.ofList_toList, decodeURIComponent_of_plain ha]

/-- **No account DID resolves to its route**: every id that the drivers make has a colon. -/
theorem not_resolvesToRoute_makeId (didDomain : String) (digits : List (Fin 16)) :
    ¬ ResolvesToRoute didDomain (makeId "acct" digits) := by
  intro h
  refine h.colon_not_mem.2 ?_
  simp [makeId]

/-- The DID of the account `acct:8f3a` resolves to a path that no account id gives. -/
theorem not_resolvesToRoute_sample :
    didWebUrl (buildAccountIssuerDid "hosted.helixid.io" (makeId "acct" [8, 15, 3, 10])) =
        some ⟨"hosted.helixid.io", "/accounts/acct/8f3a/did.json"⟩ ∧
      accountIdOfPath "/accounts/acct/8f3a/did.json" = none ∧
      ¬ ResolvesToRoute "hosted.helixid.io" (makeId "acct" [8, 15, 3, 10]) := by
  have hurl : didWebUrl (buildAccountIssuerDid "hosted.helixid.io" (makeId "acct" [8, 15, 3, 10])) =
      some ⟨"hosted.helixid.io", "/accounts/acct/8f3a/did.json"⟩ := by decide
  have hpath : accountIdOfPath "/accounts/acct/8f3a/did.json" = none := by decide
  refine ⟨hurl, hpath, ?_⟩
  rintro ⟨url, h, -, hid⟩
  obtain rfl := Option.some.inj (hurl.symm.trans h)
  rw [hpath] at hid
  cases hid

end Identity

end HelixServer
