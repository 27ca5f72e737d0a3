import HelixServer.Routes.AuditLog

/-!
# The delegation summary of an audit row

An entry of `GET /v1/audit-log` tells of a delegation by four fields, each with a fallback of its
own: the parent fields come from the last link but one of the delegation chain, the depth from its
length, and `delegatedTo` from the subject of the whole row.  The four describe one hop exactly for
the rows of `coherent_iff`; a row without any delegation has a `delegatedTo` (`coherent_fails`).

## Main definitions

* `HasContext payload` : the payload tells of a delegation.
* `NoDirect payload` : it has no direct delegation field.
* `Coherent row` : the entry of the row describes one hop.
* `rowSubject payload` : the subject of the row, which `delegatedTo` falls back to.
-/

namespace HelixServer

namespace Access

/-- A valid `delegationDepth`. -/
def directDepth (payload : AuditPayload) : Option ℕ :=
  (payload.get "delegationDepth").bind getDelegationDepth.depth

/-- The elements of an array in `delegationChain`. -/
def delegationChain (payload : AuditPayload) : Option (List Json) :=
  match payload.get "delegationChain" with
  | some (.arr chain) => some chain
  | _ => none

/-- The payload tells of a delegation: by one of the fields, a positive depth, or a chain with a
parent. -/
def HasContext (payload : AuditPayload) : Prop :=
  (payload.named "delegatedFrom").isSome = true ∨ (payload.named "delegatedTo").isSome = true ∨
    (payload.named "parentVcId").isSome = true ∨ (∃ depth ∈ directDepth payload, 0 < depth) ∨
    ∃ chain ∈ delegationChain payload, 2 ≤ chain.length

/-- The payload has no direct delegation field. -/
structure NoDirect (payload : AuditPayload) : Prop where
  delegatedFrom : payload.named "delegatedFrom" = none
  delegatedTo : payload.named "delegatedTo" = none
  parentVcId : payload.named "parentVcId" = none
  delegationDepth : directDepth payload = none

/-- The subject of an element of a chain. -/
def chainSubject (element : Json) : Option String :=
  element.getString "subjectDid" <|> element.getString "subject"

/-- An element of a chain with an id and a subject. -/
def WellFormed (element : Json) : Prop :=
  (element.getString "vcId").isSome = true ∧ (chainSubject element).isSome = true

/-- The subject of a row. -/
def rowSubject (payload : AuditPayload) : Option String :=
  payload.getString "subjectDid" <|> payload.getString "agentDid"

/-- The fields of a rejected attempt. -/
def attemptedFields : List String :=
  ["attemptedVcId", "attemptedParentVcId", "attemptedDelegatedFrom"]

/-- The four fields of an entry that tell of a delegation. -/
def delegationSummary (entry : AuditEntry) :
    Option String × Option String × Option String × Option ℕ :=
  (entry.delegatedFrom, entry.delegatedTo, entry.parentVcId, entry.delegationDepth)

/-- The entry of the row describes one hop, or none. -/
structure Coherent (row : AuditLogRow) : Prop where
  /-- A `delegatedTo` is shown only where there is a delegation. -/
  context : (AuditEntry.of row).delegatedTo.isSome = true → HasContext row.payload
  /-- A chain alone gives its last hop. -/
  hop : NoDirect row.payload → ∀ chain, delegationChain row.payload = some chain →
    2 ≤ chain.length → (∀ element ∈ chain, WellFormed element) →
    ∃ parent leaf, chain[chain.length - 2]? = some parent ∧ chain[chain.length - 1]? = some leaf ∧
      delegationSummary (.of row) = (chainSubject parent, chainSubject leaf,
        parent.getString "vcId", some (chain.length - 1))
  /-- The fields of a rejected attempt have no influence. -/
  attempted : ∀ row' : AuditLogRow,
    (∀ key, key ∉ attemptedFields → row'.payload.get key = row.payload.get key) →
      delegationSummary (.of row') = delegationSummary (.of row)

variable {row row' : AuditLogRow} {payload payload' : AuditPayload}

/-- Only the delegation fields, the chain and the subject of the row are read. -/
theorem delegationSummary_congr
    (h : ∀ key, key ∉ attemptedFields → row'.payload.get key = row.payload.get key) :
    delegationSummary (.of row') = delegationSummary (.of row) := by
  have hget : ∀ key, key ∉ attemptedFields →
      row'.payload.getString key = row.payload.getString key :=
    fun key hkey => congrArg (·.bind Json.asString) (h key hkey)
  simp only [delegationSummary, AuditEntry.of, getDelegatedFrom, getDelegatedTo,
    getDelegationParentVcId, getDelegationDepth, AuditPayload.named, AuditPayload.delegationParent,
    hget "delegatedFrom" (by decide), hget "delegatedTo" (by decide),
    hget "parentVcId" (by decide), hget "subjectDid" (by decide), hget "agentDid" (by decide),
    h "delegationChain" (by decide), h "delegationDepth" (by decide)]

theorem summary_of_chain (h : NoDirect row.payload) {chain : List Json}
    (hchain : delegationChain row.payload = some chain) (hlen : 2 ≤ chain.length) {parent : Json}
    (hparent : chain[chain.length - 2]? = some parent) :
    delegationSummary (.of row) = (chainSubject parent, rowSubject row.payload,
      parent.getString "vcId", some (chain.length - 1)) := by
  have hget : row.payload.get "delegationChain" = some (.arr chain) := by
    unfold delegationChain at hchain
    split at hchain
    · rename_i heq
      cases hchain
      exact heq
    · cases hchain
  have hdepth : (row.payload.get "delegationDepth").bind getDelegationDepth.depth = none :=
    h.delegationDepth
  have hlink : row.payload.delegationParent = some parent := by
    simp only [AuditPayload.delegationParent, hget]
    rw [if_neg (Nat.not_lt.2 hlen), hparent]
  simp only [delegationSummary, AuditEntry.of, getDelegatedFrom, getDelegatedTo,
    getDelegationParentVcId, getDelegationDepth, h.delegatedFrom, h.delegatedTo, h.parentVcId,
    hdepth, hlink, hget]
  rfl

/-- Without the direct field, `delegatedTo` is the subject of the row. -/
theorem delegatedTo_of_none (h : row.payload.named "delegatedTo" = none) :
    (AuditEntry.of row).delegatedTo = rowSubject row.payload := by
  simp only [AuditEntry.of, getDelegatedTo, h]
  rfl

theorem context_iff : ((AuditEntry.of row).delegatedTo.isSome = true → HasContext row.payload) ↔
    HasContext row.payload ∨ rowSubject row.payload = none := by
  cases hdirect : row.payload.named "delegatedTo" with
  | some direct =>
    have hcontext : HasContext row.payload := .inr (.inl (by rw [hdirect]; rfl))
    exact iff_of_true (fun _ => hcontext) (.inl hcontext)
  | none =>
    rw [delegatedTo_of_none hdirect, Option.isSome_iff_ne_none]
    constructor
    · intro h
      by_cases hsubject : rowSubject row.payload = none
      · exact .inr hsubject
      · exact .inl (h hsubject)
    · rintro (h | h) hsome
      · exact h
      · exact absurd h hsome

/-- **One coherent hop.**  For every payload, the entry of the row describes one hop if and only if
the payload tells of a delegation or names no subject, and, where a well-formed chain alone tells of
it, the subject of the row is that of the last element of the chain. -/
theorem coherent_iff (row : AuditLogRow) : Coherent row ↔
    (HasContext row.payload ∨ rowSubject row.payload = none) ∧
      (NoDirect row.payload → ∀ chain, delegationChain row.payload = some chain →
        2 ≤ chain.length → (∀ element ∈ chain, WellFormed element) →
        rowSubject row.payload = chain.getLast?.bind chainSubject) := by
  have hlast : ∀ (chain : List Json) {leaf : Json}, chain[chain.length - 1]? = some leaf →
      chain.getLast?.bind chainSubject = chainSubject leaf := by
    intro chain leaf hleaf
    rw [List.getLast?_eq_getElem?, hleaf]
    rfl
  constructor
  · intro h
    refine ⟨context_iff.1 h.context, fun hdirect chain hchain hlen hformed => ?_⟩
    obtain ⟨parent, leaf, hparent, hleaf, hsummary⟩ := h.hop hdirect chain hchain hlen hformed
    rw [summary_of_chain hdirect hchain hlen hparent, Prod.mk.injEq, Prod.mk.injEq] at hsummary
    rw [hlast chain hleaf]
    exact hsummary.2.1
  · rintro ⟨hcontext, hhop⟩
    refine ⟨context_iff.2 hcontext, fun hdirect chain hchain hlen hformed => ?_,
      fun row' h => delegationSummary_congr h⟩
    have hparent : chain[chain.length - 2]? = some chain[chain.length - 2] :=
      List.getElem?_eq_getElem (by omega)
    have hleaf : chain[chain.length - 1]? = some chain[chain.length - 1] :=
      List.getElem?_eq_getElem (by omega)
    refine ⟨_, _, hparent, hleaf, ?_⟩
    rw [summary_of_chain hdirect hchain hlen hparent, hhop hdirect chain hchain hlen hformed,
      hlast chain hleaf]

/-! ### A row without a delegation -/

/-- What `POST /v1/audit-log/vp-verification` is sent for a presentation without a delegation. -/
def plainVerification : Json :=
  .obj [("vpId", .str "vp:1"), ("agentDid", .str "did:a"), ("result", .str "success")]

/-- The row that it writes. -/
def plainRow : AuditLogRow where
  eventType := "VP_VERIFIED"
  timestamp := 0
  payload :=
    match vpVerificationEntry "req" plainVerification with
    | .ok entry => entry.payload "1970-01-01T00:00:00.000Z"
    | .error _ => []

/-- **A plain verification** is shown with a `delegatedTo`, although nothing was delegated. -/
theorem coherent_fails : (AuditEntry.of plainRow).delegatedTo = some "did:a" ∧
    ¬ HasContext plainRow.payload ∧ ¬ Coherent plainRow := by
  have hnone : ¬ HasContext plainRow.payload := by
    rintro (h | h | h | ⟨_, h, -⟩ | ⟨_, h, -⟩) <;> cases h
  exact ⟨rfl, hnone, fun h => hnone (h.context rfl)⟩

end Access

end HelixServer
