import HelixServer.Services.KeyCustody

/-!
# The route of the account DIDs

`routes/account-did`: the document of an account's DID, to everybody.
-/

namespace HelixServer

namespace Routes

/-- What `GET /accounts/:accountId/did.json` answers. -/
inductive AccountDidReply where
  | sent (didDocument : DIDDocument)
  | notFound (code message : String)

/-- `GET /accounts/:accountId/did.json`. -/
def accountDid (cfg : Config) (accountId : String) : Promise AccountDidReply := do
  let did := buildAccountIssuerDid cfg.didDomain accountId
  match ← DidRepository.findDidById did with
  | none => return .notFound "DID_NOT_FOUND" "No account DID document found for this id."
  | some record => return .sent record.didDocument

end Routes

end HelixServer
