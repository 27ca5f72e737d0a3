import HelixServer.Ownership.Protocol

/-!
# What the link tables say

In each link table a key has an owner exactly when the request that created it has linked it
(`Linking.links`), and a redeeming request has found that owner, or none because the creating
request had not linked it yet (`Linking.found`, `Linking.looked`).  This holds along every run in
which the core services create what is new, whatever calls are rejected (`linking_of_run`).

## Main definitions

* `CreatedBy t x` : the request has created the token, the challenge or the credential `x`.
* `After t t'` : a request makes all its calls after another one.
* `Fresh` : the core services create what has not been created before.
* `Turn` : what an answered call does to the stage of its request.
* `Linking` : the invariant.
-/

namespace HelixServer

namespace Ownership

open Async

variable {cfg : Config} {core : Core}

/-! ### What a request has created -/

/-- What a core call has created. -/
def resultOf : (o : Op) → o.Res → Option String
  | .core _, r => some r
  | _, _ => none

/-- What the core call of a request has created. -/
def coreResult (t : Task (server cfg core)) : Option String :=
  t.done.findSome? fun e => resultOf e.op e.res

/-- The account that a call finds out: the one that the guard looks up for the access token, or what
the link table answers, at that moment, of what is presented. -/
def foundAccount : (o : Op) → o.Res → Option String
  | .accounts (.findById a), _ => some a
  | .links _ (.getAccountId _), owner => owner
  | _, _ => none

/-- The account that a request acts for: what its own look-up has answered.  A link that is written
after the look-up does not count. -/
def requestAccount (t : Task (server cfg core)) : Option String :=
  t.done.findSome? fun e => foundAccount e.op e.res

/-- The request has created the token, the challenge or the credential `x`. -/
def CreatedBy (t : Task (server cfg core)) (x : AccountLinkTable × String) : Prop :=
  (coreOp t.call).map creates = some x.1 ∧ coreResult t = some x.2

/-- Some request has created it. -/
def Created (s : State cfg core) (x : AccountLinkTable × String) : Prop :=
  ∃ t ∈ s.tasks, CreatedBy t x

/-- Every call of `t` comes after every call of `t'`. -/
def After (t t' : Task (server cfg core)) : Prop :=
  ∀ e ∈ t.done, ∀ e' ∈ t'.done, e'.pre.draws < e.pre.draws

/-- The owner of a credential. -/
def owner (s : State cfg core) (vcId : String) : Option String :=
  AccountLinks.getAccountId vcId s.world.vcAccountLinks

instance (t : Task (server cfg core)) (x : AccountLinkTable × String) : Decidable (CreatedBy t x) :=
  inferInstanceAs (Decidable (_ ∧ _))

instance (s : State cfg core) (x : AccountLinkTable × String) : Decidable (Created s x) :=
  inferInstanceAs (Decidable (∃ t ∈ s.tasks, CreatedBy t x))

/-- The call is the write of a link. -/
def isLink : Op → Bool
  | .links _ (.link _ _) => true
  | _ => false

/-- The core services create what has not been created before. -/
def CoreFresh (s : State cfg core) : Op → Prop
  | .core o => ∀ r ∈ (core.exec o s.world.core).1.toOption, ¬ Created s (creates o, r)
  | _ => True

/-- The same of the calls of a run. -/
def Fresh : Discipline (server cfg core) := fun s l =>
  match l with
  | .step i => ∀ o ∈ s.nextCall i, CoreFresh s o
  | _ => True

instance (s : State cfg core) : DecidablePred (CoreFresh s) :=
  Op.Decides.decide
    { core := fun _ => inferInstanceAs (Decidable (∀ r ∈ _, ¬ Created s _)) }

instance (s : State cfg core) (l : Label (server cfg core)) : Decidable (Fresh s l) :=
  match l with
  | .step i => inferInstanceAs (Decidable (∀ o ∈ s.nextCall i, CoreFresh s o))
  | .start _ | .fail _ | .env _ => .isTrue trivial

/-! ### What a stage shows -/

/-- Where a request stands. -/
abbrev stageOf (t : Task (server cfg core)) : Stage := (protocol cfg core).state t

namespace Stage

/-- The core call of the request. -/
def op : Stage → Option CoreOp
  | aside => none
  | gated o | known o _ _ | redeeming o | holding o _ | created o _ _ | settled o _ _ => some o

/-- What the core call has created, and its link table. -/
def makes : Stage → Option (AccountLinkTable × String)
  | created o r _ | settled o r _ => some (creates o, r)
  | _ => none

/-- The account that the request links what it creates to. -/
def owner : Stage → Option String
  | known _ a _ | created _ _ a => some a
  | holding _ owner | settled _ _ owner => owner
  | _ => none

/-- What the request presents, once it has looked up its account. -/
def looked : Stage → Option (AccountLinkTable × String)
  | holding o _ | created o _ _ | settled o _ _ => presents o
  | _ => none

/-- The request creates what its core call answered and links it to `a`. -/
def Links (q : Stage) (x : AccountLinkTable × String) (a : String) : Prop :=
  q.makes = some x ∧ q.owner = some a ∧ ∀ o r b, q ≠ created o r b

/-- A gated request presents nothing, a redeeming one something. -/
def Proper : Stage → Prop
  | gated o | known o _ _ => presents o = none
  | redeeming o | holding o _ => presents o ≠ none
  | _ => True

end Stage

/-- What a call `o` made in `w` and answered `r` does to the stage of its request. -/
inductive Turn (cfg : Config) (w : World core) : Stage → (o : Op) → o.Res → Stage → Prop
  | stay (q : Stage) (o : Op) (r : o.Res) (hl : isLink o = false) (hr : resultOf o r = none)
      (hu : q = .aside ∨ foundAccount o r = none) : Turn cfg w q o r q
  | lookUp (o : CoreOp) (a : String) (account : Option AccountRecord)
      (hfound : ∀ row ∈ account, row ∈ w.accounts ∧ row.id = a) :
      Turn cfg w (.gated o) (.accounts (.findById a)) account (.known o a account.isSome)
  | lookOwner (o : CoreOp) (x : AccountLinkTable × String) (hx : presents o = some x) :
      Turn cfg w (.redeeming o) (.links x.1 (.getAccountId (keyIn cfg x.1 x.2)))
        (AccountLinks.getAccountId (keyIn cfg x.1 x.2) (w.links x.1))
        (.holding o (AccountLinks.getAccountId (keyIn cfg x.1 x.2) (w.links x.1)))
  | issue (o : CoreOp) (r : String) : Turn cfg w (.gated o) (.core o) r (.made o r none)
  | issueFor (o : CoreOp) (a r : String) :
      Turn cfg w (.known o a true) (.core o) r (.made o r (some a))
  | redeem (o : CoreOp) (owner : Option String) (r : String) :
      Turn cfg w (.holding o owner) (.core o) r (.made o r owner)
  | link (o : CoreOp) (r a : String) :
      Turn cfg w (.created o r a) (.links (creates o) (.link (keyIn cfg (creates o) r) a)) ()
        (.settled o r (some a))

section Calls

variable {q q' : Stage} {o : Op} {r : o.Res} {w w' : World core}

theorem isLink_of_aside (h : AuthCall o ∨ WatchCall o) : isLink o = false := by
  cases o with
  | links table o =>
    rcases h with (h | h) | h
    · exact h.elim
    · exact h.elim
    · cases o <;> first | exact h.elim | rfl
  | _ => rfl

theorem resultOf_of_aside (h : AuthCall o ∨ WatchCall o) : resultOf o r = none := by
  cases o with
  | core o => rcases h with (h | h) | h <;> exact h.elim
  | _ => rfl

theorem turn_of_call (ha : q.Allows cfg o) (he : o.exec cfg w = (.ok r, w')) :
    Turn cfg w q o r (q.next o r) := by
  cases q with
  | aside => exact .stay _ o r (isLink_of_aside ha) (resultOf_of_aside ha) (.inl rfl)
  | gated o' =>
    cases o with
    | runtime o => exact .stay _ _ r rfl rfl (.inr rfl)
    | accounts o =>
      cases o with
      | findById a =>
        refine .lookUp o' a r fun row hrow => ?_
        cases he
        have hfind : w.accounts.find? (·.id == a) = some row := hrow
        exact ⟨List.mem_of_find?_eq_some hfind, by simpa using List.find?_some hfind⟩
      | _ => exact ha.elim
    | core o => obtain rfl : o = o' := ha; exact .issue o r
    | _ => exact ha.elim
  | known o' a found =>
    cases o with
    | runtime o => exact .stay _ _ r rfl rfl (.inr rfl)
    | audit o => exact .stay _ _ r rfl rfl (.inr rfl)
    | core o =>
      obtain ⟨rfl, rfl⟩ : o = o' ∧ found = true := ha
      exact .issueFor o a r
    | _ => exact ha.elim
  | redeeming o' =>
    cases o with
    | links table o =>
      cases o with
      | getAccountId key =>
        obtain ⟨x, hx, rfl⟩ := ha
        cases he
        exact .lookOwner o' (table, x) hx
      | _ => exact ha.elim
    | _ => exact ha.elim
  | holding o' owner =>
    cases o with
    | core o => obtain rfl : o = o' := ha; exact .redeem o owner r
    | _ => exact ha.elim
  | created o' x a =>
    cases o with
    | links table o =>
      cases o with
      | link key b =>
        obtain ⟨rfl, rfl, rfl⟩ := ha
        exact .link o' x b
      | _ => exact ha.elim
    | _ => exact ha.elim
  | settled o' x owner =>
    cases o with
    | audit o => exact .stay _ _ r rfl rfl (.inr rfl)
    | _ => exact ha.elim

theorem link_not_refused {c : CoreOp} {x a : String} {e : HelixError}
    (ha : (Stage.created c x a).Allows cfg o) (he : o.exec cfg w = (.error e, w')) : False := by
  cases o with
  | links table o => cases o <;> cases congrArg Prod.fst he
  | _ => exact ha.elim

theorem made_cases {o : CoreOp} {r : String} {owner : Option String} (h : owner ≠ some "") :
    (∃ a, owner = some a ∧ Stage.made o r owner = .created o r a) ∨
      owner = none ∧ Stage.made o r owner = .settled o r none := by
  cases owner with
  | none => exact .inr ⟨rfl, rfl⟩
  | some a =>
    have ha : a ≠ "" := fun he => h (congrArg some he)
    have htruthy : truthy (some a) = some a := by simp [truthy, ha]
    exact .inl ⟨a, rfl, by simp only [Stage.made, htruthy]⟩

end Calls

/-! ### What every step keeps -/

section System

variable {s s' : State cfg core} {i : ℕ} {t t' : Task (server cfg core)} {w' : World core}

/-- The stage of a request shows its calls. -/
structure Traced (t : Task (server cfg core)) : Prop where
  op : (stageOf t).op = coreOp t.call
  proper : (stageOf t).Proper
  result : stageOf t ≠ .aside → coreResult t = (stageOf t).makes.map (·.2)
  bearer : stageOf t ≠ .aside → (coreOp t.call).bind presents = none →
    bearerAccount t = (stageOf t).owner
  account : stageOf t ≠ .aside → requestAccount t = (stageOf t).owner

/-- What holds after every step. -/
structure Linking (s : State cfg core) : Prop where
  ids : ∀ r ∈ s.world.accounts, r.id ≠ ""
  past : ∀ t ∈ s.tasks, ∀ e ∈ t.done, e.pre.draws < s.world.draws
  traced : ∀ t ∈ s.tasks, Traced t
  named : ∀ t ∈ s.tasks, (stageOf t).owner = some "" → ∃ o a, stageOf t = .known o a false
  unique : ∀ (i j : ℕ) (t t' : Task (server cfg core)) x, s.tasks[i]? = some t →
    s.tasks[j]? = some t' →
    (stageOf t).makes = some x → (stageOf t').makes = some x → i = j
  links : ∀ x a, AccountLinks.getAccountId (keyIn cfg x.1 x.2) (s.world.links x.1) = some a ↔
    ∃ t ∈ s.tasks, (stageOf t).Links x a
  found : ∀ t ∈ s.tasks, ∀ x ∈ (stageOf t).looked, ∀ a, (stageOf t).owner = some a →
    AccountLinks.getAccountId (keyIn cfg x.1 x.2) (s.world.links x.1) = some a
  looked : ∀ t ∈ s.tasks, ∀ x ∈ (stageOf t).looked, (stageOf t).owner = none → t.done ≠ [] ∧
    ∀ t' ∈ s.tasks, (stageOf t').makes = some x →
      (stageOf t').owner = none ∨ (∃ o r a, stageOf t' = .created o r a) ∨ ¬ After t t'

theorem After.mono {u u' : Task (server cfg core)} (h : After t' u') (ht : t.done <+: t'.done)
    (hu : u.done <+: u'.done) : After t u :=
  fun e he e' he' => h e (ht.subset he) e' (hu.subset he')

theorem coreResult_resume {w : World core} {o : Op} {r : o.Res} {p : Promise Reply} :
    coreResult (t.resume w o r p) = (coreResult t).or (resultOf o r) := by
  simp [coreResult]

theorem requestAccount_resume {w : World core} {o : Op} {r : o.Res} {p : Promise Reply} :
    requestAccount (t.resume w o r p) = (requestAccount t).or (foundAccount o r) := by
  simp [requestAccount]

theorem lookedUp_eq_none {o : Op} {r : o.Res} (h : foundAccount o r = none) :
    lookedUp o = none := by
  cases o with
  | accounts o => cases o <;> first | rfl | cases h
  | _ => rfl

theorem Traced.next {w : World core} {o : Op} {r : o.Res} {q q' : Stage} (h : Traced t)
    (hcall : t'.call = t.call) (hres' : coreResult t' = (coreResult t).or (resultOf o r))
    (hbear' : bearerAccount t' = (bearerAccount t).or (lookedUp o))
    (hacc' : requestAccount t' = (requestAccount t).or (foundAccount o r)) (hq : stageOf t = q)
    (hq' : stageOf t' = q') (hturn : Turn cfg w q o r q')
    (hnamed : q.owner = some "" → ∃ o a, q = .known o a false) : Traced t' := by
  obtain ⟨hop, hproper, hresult, hbearer, haccount⟩ := h
  rw [hq] at hop hproper hresult hbearer haccount
  rw [← hcall] at hop hbearer
  -- after the core call, the stage has the created thing and the owner
  have hmade : ∀ {c : CoreOp} {x : String} {owner : Option String}, q.op = some c → q.makes = none →
      q ≠ .aside → owner ≠ some "" → q' = .made c x owner → resultOf o r = some x →
      foundAccount o r = none → q.owner = owner → Traced t' := by
    intro c x owner hc hmakes hne hname hq'' hres hlook howner
    have hcall : coreOp t'.call = some c := hop.symm.trans hc
    have hx : coreResult t' = some x := by
      rw [hres', hresult hne, hmakes, hres]; rfl
    have hb : presents c = none → bearerAccount t' = owner := by
      intro hnone
      rw [hbear', hbearer hne (by rw [hcall]; exact hnone), lookedUp_eq_none hlook, howner]
      exact Option.or_none
    have ha : requestAccount t' = owner := by
      rw [hacc', haccount hne, hlook, howner]
      exact Option.or_none
    rcases made_cases (o := c) (r := x) hname with ⟨a, rfl, hm⟩ | ⟨rfl, hm⟩ <;>
      rw [hm] at hq'' <;> subst hq'' <;>
      exact ⟨by rw [hq']; exact hcall.symm, by rw [hq']; trivial, fun _ => by rw [hq', hx]; rfl,
        fun _ hnone => by rw [hq']; exact hb (by simpa [hcall] using hnone),
        fun _ => by rw [hq']; exact ha⟩
  cases hturn with
  | stay _ _ _ hl hr hu =>
    refine ⟨by rw [hq']; exact hop, by rw [hq']; exact hproper, fun hne => ?_, fun hne hnone => ?_,
      fun hne => ?_⟩
    · rw [hq'] at hne ⊢
      rw [hres', hresult hne, hr, Option.or_none]
    · rw [hq'] at hne ⊢
      rw [hbear', hbearer hne hnone, lookedUp_eq_none (hu.resolve_left hne), Option.or_none]
    · rw [hq'] at hne ⊢
      rw [hacc', haccount hne, hu.resolve_left hne, Option.or_none]
  | lookUp c a account hfound =>
    refine ⟨by rw [hq']; exact hop, by rw [hq']; exact hproper, fun _ => ?_, fun _ hnone => ?_,
      fun _ => ?_⟩
    · rw [hq', hres', hresult nofun]; rfl
    · rw [hq', hbear', hbearer nofun hnone]; rfl
    · rw [hq', hacc', haccount nofun]; rfl
  | lookOwner c x hx =>
    have hsome : presents c ≠ none := by rw [hx]; exact nofun
    refine ⟨by rw [hq']; exact hop, by rw [hq']; exact hsome, fun _ => ?_, fun _ hnone => ?_,
      fun _ => ?_⟩
    · rw [hq', hres', hresult nofun]; rfl
    · have hc : coreOp t'.call = some c := hop.symm
      exact absurd (by simpa [hc] using hnone) hsome
    · rw [hq', hacc', haccount nofun]
      exact Option.none_or
  | issue c x => exact @hmade c x none rfl rfl nofun nofun rfl rfl rfl rfl
  | issueFor c a x =>
    refine hmade rfl rfl nofun (fun hname => ?_) rfl rfl rfl rfl
    obtain ⟨c', a', heq⟩ := hnamed hname
    cases heq
  | redeem c owner x =>
    refine hmade rfl rfl nofun (fun hname => ?_) rfl rfl rfl rfl
    obtain ⟨c', a', heq⟩ := hnamed hname
    cases heq
  | link c x a =>
    refine ⟨by rw [hq']; exact hop, by rw [hq']; trivial, fun _ => ?_,
      fun _ hnone => ?_, fun _ => ?_⟩
    · rw [hq', hres', hresult nofun]; rfl
    · rw [hq', hbear', hbearer nofun hnone]; rfl
    · rw [hq', hacc', haccount nofun]; rfl

/-- A request that has made a call is not after one that makes a call now. -/
theorem not_after_of_new (hpast : ∀ e ∈ t.done, e.pre.draws < s.world.draws) (hne : t.done ≠ [])
    {e : Event (server cfg core)} (he : e ∈ t'.done) (hnew : s.world.draws ≤ e.pre.draws) :
    ¬ After t t' := by
  intro h
  obtain ⟨e₁, he₁⟩ := List.exists_mem_of_ne_nil _ hne
  have hlt := h e₁ he₁ e he
  have hold := hpast e₁ he₁
  omega

theorem not_after_self (hne : t.done ≠ []) : ¬ After t t := by
  intro h
  obtain ⟨e, he⟩ := List.exists_mem_of_ne_nil _ hne
  exact Nat.lt_irrefl _ (h e he e he)

/-- **A step of request `i`**, in terms of what it changes. -/
theorem Linking.put (hk : Linking s) (ht : s.tasks[i]? = some t)
    (hids : ∀ r ∈ w'.accounts, r.id ≠ "") (hdraws : s.world.draws ≤ w'.draws)
    (hdone : t.done <+: t'.done) (hpast : ∀ e ∈ t'.done, e.pre.draws < w'.draws)
    (htraced : Traced t')
    (hnamed : (stageOf t').owner = some "" → ∃ o a, stageOf t' = .known o a false)
    (hnew : ∀ x, (stageOf t').makes = some x → stageOf t' = stageOf t ∨
      (∃ e ∈ t'.done, s.world.draws ≤ e.pre.draws) ∧
        ((stageOf t).makes = some x ∨ ∀ t₁ ∈ s.tasks, (stageOf t₁).makes ≠ some x))
    (hkeep : ∀ x a, (stageOf t).Links x a → (stageOf t').Links x a)
    (hlinks : ∀ x a, AccountLinks.getAccountId (keyIn cfg x.1 x.2) (w'.links x.1) = some a ↔
      (stageOf t').Links x a ∨
        AccountLinks.getAccountId (keyIn cfg x.1 x.2) (s.world.links x.1) = some a)
    (hfound : ∀ x ∈ (stageOf t').looked, ∀ a, (stageOf t').owner = some a →
      AccountLinks.getAccountId (keyIn cfg x.1 x.2) (s.world.links x.1) = some a)
    (hlooked : ∀ x ∈ (stageOf t').looked, (stageOf t').owner = none → t'.done ≠ [] ∧
      ∀ t₁ ∈ s.tasks, (stageOf t₁).makes = some x →
        (stageOf t₁).owner = none ∨ (∃ o r a, stageOf t₁ = .created o r a) ∨ ¬ After t' t₁) :
    Linking (s.put w' i t') where
  ids := hids
  past := by
    intro t₁ ht₁ e he
    rcases Sys.mem_put ht₁ with rfl | hm
    · exact hpast e he
    · exact Nat.lt_of_lt_of_le (hk.past t₁ hm e he) hdraws
  traced := by
    intro t₁ ht₁
    rcases Sys.mem_put ht₁ with rfl | hm
    · exact htraced
    · exact hk.traced t₁ hm
  named := by
    intro t₁ ht₁
    rcases Sys.mem_put ht₁ with rfl | hm
    · exact hnamed
    · exact hk.named t₁ hm
  unique := by
    intro j k t₁ t₂ x h₁ h₂ hx₁ hx₂
    rw [Sys.put_getElem? ht] at h₁ h₂
    -- the creator that is not request `i` is an old one
    have hother : ∀ {j : ℕ} {t₁ : Task (server cfg core)}, i ≠ j → s.tasks[j]? = some t₁ →
        (stageOf t').makes = some x → (stageOf t₁).makes = some x → False := by
      intro j t₁ hij hj hx' hx
      have hold : (stageOf t).makes = some x := by
        rcases hnew x hx' with hsame | ⟨-, hx | hnone⟩
        · rw [← hsame]; exact hx'
        · exact hx
        · exact absurd hx (hnone t₁ (List.mem_of_getElem? hj))
      exact hij (hk.unique i j t t₁ x ht hj hold hx)
    by_cases hj : i = j <;> by_cases hk' : i = k
    · rw [← hj, ← hk']
    · rw [if_pos hj] at h₁
      rw [if_neg hk'] at h₂
      cases h₁
      exact (hother hk' h₂ hx₁ hx₂).elim
    · rw [if_neg hj] at h₁
      rw [if_pos hk'] at h₂
      cases h₂
      exact (hother hj h₁ hx₂ hx₁).elim
    · rw [if_neg hj] at h₁
      rw [if_neg hk'] at h₂
      exact hk.unique j k t₁ t₂ x h₁ h₂ hx₁ hx₂
  links := by
    intro x a
    refine (hlinks x a).trans ⟨?_, ?_⟩
    · rintro (hl | hl)
      · exact ⟨t', List.mem_of_getElem? ((Sys.put_getElem? ht).trans (if_pos rfl)), hl⟩
      · exact Sys.exists_mem_put ht (hkeep x a) ((hk.links x a).1 hl)
    · rintro ⟨t₁, ht₁, hl⟩
      rcases Sys.mem_put ht₁ with rfl | hm
      · exact .inl hl
      · exact .inr ((hk.links x a).2 ⟨t₁, hm, hl⟩)
  found := by
    intro t₁ ht₁ x hx a ha
    refine (hlinks x a).2 (.inr ?_)
    rcases Sys.mem_put ht₁ with rfl | hm
    · exact hfound x hx a ha
    · exact hk.found t₁ hm x hx a ha
  looked := by
    intro t₁ ht₁ x hx hnone
    rcases Sys.mem_put ht₁ with rfl | hm
    · obtain ⟨hne, hall⟩ := hlooked x hx hnone
      refine ⟨hne, fun t₂ ht₂ hx₂ => ?_⟩
      rcases Sys.mem_put ht₂ with rfl | hm₂
      · exact .inr (.inr (not_after_self hne))
      · exact hall t₂ hm₂ hx₂
    · obtain ⟨hne, hall⟩ := hk.looked t₁ hm x hx hnone
      refine ⟨hne, fun t₂ ht₂ hx₂ => ?_⟩
      rcases Sys.mem_put ht₂ with rfl | hm₂
      · rcases hnew x hx₂ with hsame | ⟨⟨e, he, hdraw⟩, -⟩
        · rw [hsame] at hx₂ ⊢
          refine (hall t (List.mem_of_getElem? ht) hx₂).imp_right (.imp_right fun hna ha => hna ?_)
          exact ha.mono List.prefix_rfl hdone
        · exact .inr (.inr (not_after_of_new (hk.past t₁ hm) hne he hdraw))
      · exact hall t₂ hm₂ hx₂

/-! ### One step -/

theorem exec_links {o : Op} {w : World core} (h : isLink o = false) (table : AccountLinkTable) :
    (o.exec cfg w).2.links table = w.links table := by
  rw [Op.exec_links]
  cases o with
  | links table' o =>
    cases o with
    | link key a => cases h
    | _ => dsimp only; split_ifs with ht <;> [rw [ht]; rfl]; rfl
  | _ => rfl

theorem exec_keeps_link {o : Op} {w : World core} {table : AccountLinkTable} {key a : String}
    (h : AccountLinks.getAccountId key (w.links table) = some a) :
    AccountLinks.getAccountId key ((o.exec cfg w).2.links table) = some a := by
  cases hl : isLink o with
  | false => rw [exec_links hl]; exact h
  | true =>
    rw [Op.exec_links]
    cases o with
    | links table' o =>
      cases o with
      | link key' b =>
        dsimp only [AccountLinkOp.exec]
        split_ifs with ht
        · subst ht
          rw [AccountLinks.getAccountId_link, if_neg]
          · exact h
          · rintro ⟨rfl, hnone⟩
            rw [h] at hnone
            cases hnone
        · exact h
      | _ => cases hl
    | _ => cases hl

/-- **Links are permanent**: in a run an owner stays the owner of its key. -/
theorem link_of_later {C : Discipline (server cfg core)} (h : Run C s s')
    {table : AccountLinkTable} {key a : String}
    (hl : AccountLinks.getAccountId key (s.world.links table) = some a) :
    AccountLinks.getAccountId key (s'.world.links table) = some a :=
  h.world (I := fun w : World core => AccountLinks.getAccountId key (w.links table) = some a) hl
    (fun _ _ hw => exec_keeps_link hw) fun _ _ _ hw he => by rwa [EnvMove.exec_links he]

theorem Traced.createdBy_iff (h : Traced t) {x : AccountLinkTable × String} :
    CreatedBy t x ↔ (stageOf t).makes = some x := by
  obtain ⟨hop, -, hresult, -, -⟩ := h
  unfold CreatedBy
  rw [← hop]
  generalize stageOf t = q at hresult
  cases q with
  | created o r a | settled o r a =>
    rw [hresult nofun]
    simp [Stage.op, Stage.makes, Prod.ext_iff]
  | aside => simp [Stage.op, Stage.makes]
  | _ => rw [hresult nofun]; simp [Stage.makes]

theorem Linking.created_iff (hk : Linking s) {x : AccountLinkTable × String} :
    Created s x ↔ ∃ t ∈ s.tasks, (stageOf t).makes = some x :=
  exists_congr fun t => and_congr_right fun ht => (hk.traced t ht).createdBy_iff

/-- A request that is still to link what it has created finds its key without an owner. -/
theorem Linking.unlinked (hk : Linking s) (ht : s.tasks[i]? = some t) {o : CoreOp} {r a : String}
    (hq : stageOf t = .created o r a) :
    AccountLinks.getAccountId (keyIn cfg (creates o) r) (s.world.links (creates o)) = none := by
  by_contra hne
  obtain ⟨b, hb⟩ := Option.ne_none_iff_exists'.1 hne
  obtain ⟨t₁, ht₁, hmakes, -, hnot⟩ := (hk.links (creates o, r) b).1 hb
  obtain ⟨j, hj, htj⟩ := List.mem_iff_getElem.1 ht₁
  have hj' : s.tasks[j]? = some t₁ := List.getElem?_eq_some_iff.2 ⟨hj, htj⟩
  obtain rfl := hk.unique i j t t₁ (creates o, r) ht hj' (by rw [hq]; rfl) hmakes
  obtain rfl := Option.some.inj (ht.symm.trans hj')
  exact hnot _ _ _ hq

theorem getAccountId_linked (hinj : Function.Injective cfg.runtime.hashToken) {w : World core}
    {o : CoreOp} {r a : String} {now : ℕ}
    (hnone : AccountLinks.getAccountId (keyIn cfg (creates o) r) (w.links (creates o)) = none)
    (x : AccountLinkTable × String) (b : String) :
    AccountLinks.getAccountId (keyIn cfg x.1 x.2) (if creates o = x.1 then
        AccountLinks.link (keyIn cfg (creates o) r) a now (w.links (creates o)) else w.links x.1) =
        some b ↔
      (Stage.settled o r (some a)).Links x b ∨
        AccountLinks.getAccountId (keyIn cfg x.1 x.2) (w.links x.1) = some b := by
  obtain ⟨table, y⟩ := x
  have hkey : keyIn cfg table r = keyIn cfg table y → r = y := by
    intro h
    cases table with
    | enrollmentTokenAccountLinks => exact hinj h
    | _ => exact h
  have hlinks : (Stage.settled o r (some a)).Links (table, y) b ↔
      (creates o = table ∧ r = y) ∧ a = b := by
    simp [Stage.Links, Stage.makes, Stage.owner]
  rw [hlinks]
  by_cases hT : creates o = table
  · subst hT
    simp only [if_true, AccountLinks.getAccountId_link, hnone, and_true, true_and]
    by_cases hr : r = y
    · subst hr
      simp [hnone]
    · have hne : keyIn cfg (creates o) r ≠ keyIn cfg (creates o) y := fun h => hr (hkey h)
      simp [hne, hr]
  · simp [hT]

/-- After a core call for the owner that the request has looked up. -/
theorem Linking.create (hk : Linking s) (ht : s.tasks[i]? = some t) {c : CoreOp} {x : String}
    {owner : Option String} (hids : ∀ r ∈ w'.accounts, r.id ≠ "")
    (hdraws : s.world.draws ≤ w'.draws) (hdone : t.done <+: t'.done)
    (hpast : ∀ e ∈ t'.done, e.pre.draws < w'.draws)
    (hevent : ∃ e ∈ t'.done, s.world.draws ≤ e.pre.draws) (htraced : Traced t')
    (hlinks : ∀ table, w'.links table = s.world.links table)
    (hmakes : (stageOf t).makes = none) (hname : owner ≠ some "")
    (hq' : stageOf t' = .made c x owner)
    (hlooked : presents c = none ∨ (stageOf t).looked = presents c ∧ (stageOf t).owner = owner)
    (hfresh : ¬ Created s (creates c, x)) :
    Linking (s.put w' i t') := by
  have hnone : ∀ t₁ ∈ s.tasks, (stageOf t₁).makes ≠ some (creates c, x) :=
    fun t₁ ht₁ h => hfresh (hk.created_iff.2 ⟨t₁, ht₁, h⟩)
  have hnotLinks : ∀ y a, ¬ (stageOf t).Links y a := by
    rintro y a ⟨h, -⟩
    rw [hmakes] at h
    cases h
  -- the stage after the call
  have hq : (stageOf t').makes = some (creates c, x) ∧ (stageOf t').looked = presents c ∧
      (stageOf t').owner = owner ∧ (∀ y a, ¬ (stageOf t').Links y a) ∧
      ∀ o a, stageOf t' ≠ .known o a false := by
    rcases made_cases (o := c) (r := x) hname with ⟨a, rfl, hm⟩ | ⟨rfl, hm⟩ <;> rw [hq', hm]
    · refine ⟨rfl, rfl, rfl, ?_, nofun⟩
      rintro y b ⟨-, -, hne⟩
      exact hne _ _ _ rfl
    · refine ⟨rfl, rfl, rfl, ?_, nofun⟩
      rintro y b ⟨-, hb, -⟩
      cases hb
  obtain ⟨hmakes', hlooked', howner', hnotLinks', hknown'⟩ := hq
  have hne : t'.done ≠ [] := by
    obtain ⟨e, he, -⟩ := hevent
    exact List.ne_nil_of_mem he
  have hsame : ∀ y ∈ presents c, (stageOf t).looked = presents c ∧ (stageOf t).owner = owner := by
    intro y hy
    refine hlooked.resolve_left fun h => ?_
    rw [h] at hy
    cases hy
  refine hk.put ht hids hdraws hdone hpast htraced ?_ ?_ ?_ ?_ ?_ ?_
  · exact fun h => absurd (howner'.symm.trans h) hname
  · intro y hy
    rw [hmakes'] at hy
    cases hy
    exact .inr ⟨hevent, .inr hnone⟩
  · exact fun y a h => absurd h (hnotLinks y a)
  · intro y a
    rw [hlinks]
    exact ⟨.inr, fun h => h.resolve_left (hnotLinks' y a)⟩
  · intro y hy a ha
    rw [hlooked'] at hy
    rw [howner'] at ha
    obtain ⟨hlk, hown⟩ := hsame y hy
    exact hk.found t (List.mem_of_getElem? ht) y (by rw [hlk]; exact hy) a (hown.trans ha)
  · intro y hy ha
    rw [hlooked'] at hy
    rw [howner'] at ha
    obtain ⟨hlk, hown⟩ := hsame y hy
    have hold := (hk.looked t (List.mem_of_getElem? ht) y (by rw [hlk]; exact hy) (hown.trans ha)).2
    refine ⟨hne, fun t₁ ht₁ hx₁ => ?_⟩
    exact (hold t₁ ht₁ hx₁).imp_right (.imp_right fun hna h => hna (h.mono hdone List.prefix_rfl))

/-- **An answered call keeps the invariant.** -/
theorem Linking.turn (hk : Linking s) (hinj : Function.Injective cfg.runtime.hashToken)
    (ht : s.tasks[i]? = some t) {o : Op} {r : o.Res} {q q' : Stage}
    (hturn : Turn cfg s.world q o r q') (hq : stageOf t = q) (hq' : stageOf t' = q')
    (hcore : ∀ x c, resultOf o r = some x → o = .core c →
      ¬ Created s (creates c, x))
    (hcall : t'.call = t.call) (hres : coreResult t' = (coreResult t).or (resultOf o r))
    (hbear : bearerAccount t' = (bearerAccount t).or (lookedUp o))
    (hacc : requestAccount t' = (requestAccount t).or (foundAccount o r))
    {e : Event (server cfg core)} (hdone : t'.done = t.done ++ [e]) (he : e.pre = s.world) :
    Linking (s.put (o.exec cfg s.world).2 i t') := by
  have hmem := List.mem_of_getElem? ht
  have hprefix : t.done <+: t'.done := by rw [hdone]; exact List.prefix_append _ _
  have hevent : ∃ e ∈ t'.done, s.world.draws ≤ e.pre.draws :=
    ⟨e, by rw [hdone]; simp, Nat.le_of_eq (by rw [he])⟩
  have hne : t'.done ≠ [] := by rw [hdone]; simp
  have hpast : ∀ e ∈ t'.done, e.pre.draws < (o.exec cfg s.world).2.draws := by
    intro e' he'
    rw [Op.exec_draws]
    rw [hdone] at he'
    rcases List.mem_append.1 he' with h | h
    · exact Nat.lt_succ_of_lt (hk.past t hmem e' h)
    · obtain rfl := List.mem_singleton.1 h
      rw [he]
      exact Nat.lt_succ_self _
  have hdraws : s.world.draws ≤ (o.exec cfg s.world).2.draws := Nat.le_succ _
  have hids : ∀ r ∈ (o.exec cfg s.world).2.accounts, r.id ≠ "" := Op.exec_ids hk.ids
  have hnamed := hk.named t hmem
  have htraced := (hk.traced t hmem).next hcall hres hbear hacc hq hq' hturn
    (by rw [← hq]; exact hnamed)
  rw [hq] at hnamed
  have hproper := (hk.traced t hmem).proper
  rw [hq] at hproper
  have hput := hk.put ht hids hdraws hprefix hpast htraced
  have hcreate := fun c x owner =>
    @Linking.create _ _ s i t t' _ hk ht c x owner hids hdraws hprefix hpast hevent htraced
  cases hturn with
  | stay _ _ _ hl hr hu =>
    have hsame : stageOf t' = stageOf t := hq'.trans hq.symm
    refine hput ?_ ?_ ?_ ?_ ?_ ?_
    · rw [hq']; exact hnamed
    · exact fun _ _ => .inl hsame
    · rw [hsame]; exact fun _ _ h => h
    · intro x a
      rw [exec_links hl, hsame]
      exact ⟨.inr, fun h => h.elim (fun hx => (hk.links x a).2 ⟨t, hmem, hx⟩) id⟩
    · rw [hsame]; exact hk.found t hmem
    · rw [hsame]
      intro x hx hnone
      refine ⟨hne, fun t₁ ht₁ hx₁ => ?_⟩
      exact ((hk.looked t hmem x hx hnone).2 t₁ ht₁ hx₁).imp_right
        (.imp_right fun hna h => hna (h.mono hprefix List.prefix_rfl))
  | lookUp c a account hfound =>
    refine hput ?_ ?_ ?_ ?_ ?_ ?_ <;> rw [hq']
    · intro ha
      cases ha
      cases account with
      | none => exact ⟨c, "", rfl⟩
      | some row =>
        obtain ⟨hrow, hid⟩ := hfound row rfl
        exact absurd hid (hk.ids row hrow)
    · exact nofun
    · rw [hq]; exact fun _ _ h => nomatch h.1
    · intro x a
      rw [exec_links rfl]
      exact ⟨.inr, fun h => h.resolve_left fun hx => nomatch hx.1⟩
    · exact nofun
    · exact nofun
  | lookOwner c x hx =>
    -- the key has an owner if a request has linked it
    have hlinked : ∀ a, AccountLinks.getAccountId (keyIn cfg x.1 x.2) (s.world.links x.1) = some a →
        a ≠ "" := by
      intro a ha h
      obtain ⟨t₁, ht₁, hmakes, howner, -⟩ := (hk.links x a).1 ha
      obtain ⟨c₁, b, h₁⟩ := hk.named t₁ ht₁ (h ▸ howner)
      rw [h₁] at hmakes
      cases hmakes
    refine hput ?_ ?_ ?_ ?_ ?_ ?_ <;> rw [hq']
    · exact fun h => absurd rfl (hlinked "" h)
    · exact nofun
    · rw [hq]; exact fun _ _ h => nomatch h.1
    · intro y a
      rw [exec_links rfl]
      exact ⟨.inr, fun h => h.resolve_left fun hx => nomatch hx.1⟩
    · intro y hy a ha
      obtain rfl : x = y := Option.some.inj (hx.symm.trans hy)
      exact ha
    · intro y hy hnone
      obtain rfl : x = y := Option.some.inj (hx.symm.trans hy)
      refine ⟨hne, fun t₁ ht₁ hx₁ => ?_⟩
      by_cases hcreated : ∃ o r a, stageOf t₁ = .created o r a
      · exact .inr (.inl hcreated)
      · refine .inl (Option.eq_none_iff_forall_ne_some.2 fun a ha => ?_)
        have hsome := (hk.links x a).2 ⟨t₁, ht₁, hx₁, ha, fun o r b h => hcreated ⟨o, r, b, h⟩⟩
        rw [show AccountLinks.getAccountId (keyIn cfg x.1 x.2) (s.world.links x.1) =
          none from hnone]
          at hsome
        cases hsome
  | issue c x =>
    exact hcreate c x none (fun _ => exec_links rfl _) (by rw [hq]; rfl) nofun hq'
      (.inl hproper) (hcore x c rfl rfl)
  | issueFor c a x =>
    refine hcreate c x (some a) (fun _ => exec_links rfl _) (by rw [hq]; rfl) (fun h => ?_) hq'
      (.inl hproper) (hcore x c rfl rfl)
    obtain ⟨c', a', heq⟩ := hnamed h
    cases heq
  | redeem c owner x =>
    refine hcreate c x owner (fun _ => exec_links rfl _) (by rw [hq]; rfl) (fun h => ?_) hq'
      (.inr (by rw [hq]; exact ⟨rfl, rfl⟩)) (hcore x c rfl rfl)
    obtain ⟨c', a', heq⟩ := hnamed h
    cases heq
  | link c x a =>
    have hnone := hk.unlinked ht hq
    have hold := hk.looked t hmem
    rw [hq] at hold
    refine hput ?_ ?_ ?_ ?_ ?_ ?_ <;> rw [hq']
    · intro h
      obtain ⟨c', a', heq⟩ := hnamed h
      cases heq
    · exact fun y hy => .inr ⟨hevent, .inl (by rw [hq]; exact hy)⟩
    · rw [hq]; exact fun _ _ h => absurd rfl (h.2.2 c x a)
    · intro y b
      rw [Op.exec_links]
      exact getAccountId_linked hinj hnone y b
    · have hf := hk.found t hmem
      rw [hq] at hf
      exact hf
    · exact fun _ _ h => nomatch h

theorem Linking.reject (hk : Linking s) (ht : s.tasks[i]? = some t) (e : HelixError)
    (hids : ∀ r ∈ w'.accounts, r.id ≠ "") (hdraws : s.world.draws ≤ w'.draws)
    (hlinks : ∀ table, w'.links table = s.world.links table) :
    Linking (s.put w' i (t.reject e)) := by
  have hmem := List.mem_of_getElem? ht
  have htraced := hk.traced t hmem
  have hlinked : ∀ x a, (stageOf t).Links x a →
      AccountLinks.getAccountId (keyIn cfg x.1 x.2) (s.world.links x.1) = some a :=
    fun x a h => (hk.links x a).2 ⟨t, hmem, h⟩
  refine hk.put ht hids hdraws List.prefix_rfl
    (fun e he => Nat.lt_of_lt_of_le (hk.past t hmem e he) hdraws)
    ⟨htraced.op, htraced.proper, htraced.result, htraced.bearer, htraced.account⟩ (hk.named t hmem)
    (fun _ _ => .inl rfl) (fun _ _ h => h) (fun x a => ?_) (hk.found t hmem) (hk.looked t hmem)
  rw [hlinks]
  exact ⟨.inr, fun h => h.elim (hlinked x a) id⟩

theorem Linking.env (hk : Linking s) {x : EnvMove} (he : x.exec s.world = some w') :
    Linking { s with world := w' } := by
  have hframe := EnvMove.exec_frame he
  have haccounts : w'.accounts = s.world.accounts := by rw [hframe]
  have hdraws : w'.draws = s.world.draws := by rw [hframe]
  have hlinks : ∀ table, w'.links table = s.world.links table := EnvMove.exec_links he
  refine ⟨?_, ?_, hk.traced, hk.named, hk.unique, ?_, ?_, hk.looked⟩
  · rw [haccounts]; exact hk.ids
  · rw [hdraws]; exact hk.past
  · intro y a; rw [hlinks]; exact hk.links y a
  · intro t ht y hy a ha; rw [hlinks]; exact hk.found t ht y hy a ha

theorem start_shows (c : Call) :
    (Stage.start c).op = coreOp c ∧ (Stage.start c).Proper ∧ (Stage.start c).makes = none ∧
      (Stage.start c).looked = none ∧ (Stage.start c).owner = none := by
  cases h : coreOp c with
  | none =>
    have hq : Stage.start c = .aside := by simp [Stage.start, h]
    rw [hq]
    exact ⟨rfl, trivial, rfl, rfl, rfl⟩
  | some o =>
    cases hp : presents o with
    | none =>
      have hq : Stage.start c = .gated o := by simp [Stage.start, h, hp]
      rw [hq]
      exact ⟨rfl, hp, rfl, rfl, rfl⟩
    | some x =>
      have hq : Stage.start c = .redeeming o := by simp [Stage.start, h, hp]
      rw [hq]
      exact ⟨rfl, (by rw [hp]; exact nofun : presents o ≠ none), rfl, rfl, rfl⟩

theorem Linking.start (hk : Linking s) (c : Call) :
    Linking { s with tasks := s.tasks ++ [.fresh c] } := by
  obtain ⟨hop, hproper, hmakes, hlooked, howner⟩ := start_shows c
  have hstage : stageOf (.fresh c : Task (server cfg core)) = Stage.start c := rfl
  have hmem : ∀ {t}, t ∈ s.tasks ++ [.fresh c] → t ∈ s.tasks ∨ t = .fresh c := fun h =>
    (List.mem_append.1 h).imp_right List.mem_singleton.1
  have hold : ∀ {t}, t ∈ s.tasks → t ∈ s.tasks ++ [.fresh c] := List.mem_append_left _
  refine ⟨hk.ids, ?_, ?_, ?_, ?_, ?_, ?_, ?_⟩
  · intro t ht e he
    rcases hmem ht with ht | rfl
    · exact hk.past t ht e he
    · cases he
  · intro t ht
    rcases hmem ht with ht | rfl
    · exact hk.traced t ht
    · exact ⟨hop, hproper, fun _ => by rw [hstage, hmakes]; rfl, fun _ _ => by
        rw [hstage, howner]; rfl, fun _ => by rw [hstage, howner]; rfl⟩
  · intro t ht h
    rcases hmem ht with ht | rfl
    · exact hk.named t ht h
    · rw [hstage, howner] at h; cases h
  · intro j k t₁ t₂ x h₁ h₂ hx₁ hx₂
    have hlast : ∀ {j : ℕ} {t₁ : Task (server cfg core)},
        (s.tasks ++ [.fresh c])[j]? = some t₁ → (stageOf t₁).makes = some x →
        s.tasks[j]? = some t₁ := by
      intro j t₁ hj hx
      rw [List.getElem?_append] at hj
      split_ifs at hj with hlt
      · exact hj
      · obtain rfl := List.mem_singleton.1 (List.mem_of_getElem? hj)
        rw [hstage, hmakes] at hx
        cases hx
    exact hk.unique j k t₁ t₂ x (hlast h₁ hx₁) (hlast h₂ hx₂) hx₁ hx₂
  · intro x a
    refine (hk.links x a).trans ⟨fun ⟨t, ht, h⟩ => ⟨t, hold ht, h⟩, ?_⟩
    rintro ⟨t, ht, h⟩
    rcases hmem ht with ht | rfl
    · exact ⟨t, ht, h⟩
    · rw [hstage, Stage.Links, hmakes] at h; cases h.1
  · intro t ht x hx a ha
    rcases hmem ht with ht | rfl
    · exact hk.found t ht x hx a ha
    · rw [hstage, hlooked] at hx; cases hx
  · intro t ht x hx hnone
    rcases hmem ht with ht | rfl
    · obtain ⟨hne, hall⟩ := hk.looked t ht x hx hnone
      refine ⟨hne, fun t' ht' hx' => ?_⟩
      rcases hmem ht' with ht' | rfl
      · exact hall t' ht' hx'
      · rw [hstage, hmakes] at hx'; cases hx'
    · rw [hstage, hlooked] at hx; cases hx

theorem turn_of_step {o : Op} {r : o.Res} {w : World core} {p : Promise Reply}
    (ha : (stageOf t).Allows cfg o) (he : o.exec cfg s.world = (.ok r, w)) :
    Turn cfg s.world (stageOf t) o r (stageOf (t.resume s.world o r p)) := by
  have hstage : stageOf (t.resume s.world o r p) = (stageOf t).next o r :=
    Protocol.state_resume t s.world o r p
  rw [hstage]
  exact turn_of_call ha he

/-- **Every step keeps the invariant.** -/
theorem Linking.step (hk : Linking s) (hinj : Function.Injective cfg.runtime.hashToken)
    (ho : (protocol cfg core).relax.Obeyed s) {l : Label (server cfg core)} (hl : Fresh s l)
    (hst : Step s l s') : Linking s' := by
  cases hst with
  | start c => exact hk.start c
  | env he => exact hk.env he
  | @call i t o k r w ht hp he =>
    have hturn := turn_of_call (ho.allowed ht hp) he
    have hw : w = (o.exec cfg s.world).2 := (congrArg Prod.snd he).symm
    have hcore : ∀ x c, resultOf o r = some x → o = .core c → ¬ Created s (creates c, x) := by
      rintro x c hx rfl
      obtain rfl : r = x := Option.some.inj hx
      have hans : (core.exec c s.world.core).1 = .ok r := congrArg Prod.fst he
      exact hl _ (Sys.nextCall_eq ht hp) r (by rw [hans]; rfl)
    subst hw
    exact hk.turn hinj ht hturn rfl (Protocol.state_resume t s.world o r (k r)) hcore rfl
      coreResult_resume bearerAccount_resume requestAccount_resume rfl rfl
  | @reject i t o k e w ht hp he =>
    have hw : w = (o.exec cfg s.world).2 := (congrArg Prod.snd he).symm
    subst hw
    refine hk.reject ht e (Op.exec_ids hk.ids) (Nat.le_succ _) (exec_links ?_)
    cases o with
    | links table o => cases o <;> cases congrArg Prod.fst he
    | _ => rfl
  | @fail i t o k ht hp hf => exact hk.reject ht _ hk.ids (Nat.le_refl _) fun _ => rfl

/-- **The invariant holds along every run**, whatever is rejected. -/
theorem linking_of_run (hinj : Function.Injective cfg.runtime.hashToken) {w₀ : World core}
    (hids : ∀ r ∈ w₀.accounts, r.id ≠ "") (hlinks : ∀ table, w₀.links table = [])
    (h : Run Fresh (Sys.init w₀ : State cfg core) s) :
    (protocol cfg core).relax.Obeyed s ∧ Linking s := by
  have ho : ∀ {s}, Run Fresh (Sys.init w₀) s → (protocol cfg core).relax.Obeyed s :=
    Protocol.relax_obeyed obeys_prog
  refine ⟨ho h, h.invariant ?_ fun _ _ _ hr ih hl hst => ih.step hinj (ho hr) hl hst⟩
  refine ⟨hids, nofun, nofun, nofun, fun i j t t' x ht => ?_, fun x a => ?_, nofun, nofun⟩
  · cases ht
  · rw [show (Sys.init w₀ : State cfg core).world.links x.1 = [] from hlinks x.1]
    exact ⟨nofun, fun ⟨_, ht, _⟩ => nomatch ht⟩

theorem Linking.eq_of_makes (hk : Linking s) (ht : t ∈ s.tasks) (ht' : t' ∈ s.tasks)
    {x : AccountLinkTable × String} (hx : (stageOf t).makes = some x)
    (hx' : (stageOf t').makes = some x) : t = t' := by
  obtain ⟨i, hi, hti⟩ := List.mem_iff_getElem.1 ht
  obtain ⟨j, hj, htj⟩ := List.mem_iff_getElem.1 ht'
  have hi' : s.tasks[i]? = some t := List.getElem?_eq_some_iff.2 ⟨hi, hti⟩
  have hj' : s.tasks[j]? = some t' := List.getElem?_eq_some_iff.2 ⟨hj, htj⟩
  obtain rfl := hk.unique i j t t' x hi' hj' hx hx'
  exact Option.some.inj (hi'.symm.trans hj')

theorem looked_of_makes {q : Stage} {x : AccountLinkTable × String} (h : q.makes = some x) :
    q.looked = q.op.bind presents := by
  cases q <;> first | rfl | cases h

theorem makes_op {q : Stage} {x : AccountLinkTable × String} (h : q.makes = some x) :
    ∃ o, q.op = some o ∧ creates o = x.1 := by
  cases q <;> cases h <;> exact ⟨_, rfl, rfl⟩

/-- A credential has the owner of the request that has created it, once that has linked it. -/
theorem Linking.owner_of_makes (hk : Linking s) (ht : t ∈ s.tasks) {v : String}
    (hmakes : (stageOf t).makes = some (.vcAccountLinks, v))
    (hlinked : ∀ o r a, stageOf t ≠ .created o r a) : owner s v = (stageOf t).owner := by
  have hkey : ∀ a, owner s v = some a ↔ ∃ t ∈ s.tasks, (stageOf t).Links (.vcAccountLinks, v) a :=
    hk.links (.vcAccountLinks, v)
  refine Option.ext fun a => (hkey a).trans ⟨?_, fun ha => ⟨t, ht, hmakes, ha, hlinked⟩⟩
  -- no other request has created it
  rintro ⟨t₁, ht₁, hmakes₁, ha, -⟩
  obtain rfl := hk.eq_of_makes ht₁ ht hmakes₁ hmakes
  exact ha

/-- The owner of a credential is that of the request that has created it. -/
theorem Linking.owner_eq (hk : Linking s) (ho : (protocol cfg core).relax.Obeyed s)
    (ht : t ∈ s.tasks) {v : String} (hv : t.prog = .pure (.vc v)) :
    (stageOf t).makes = some (.vcAccountLinks, v) ∧ owner s v = (stageOf t).owner := by
  obtain ⟨i, hi, hti⟩ := List.mem_iff_getElem.1 ht
  have hans := ho.answers (List.getElem?_eq_some_iff.2 ⟨hi, hti⟩) hv
  obtain ⟨o, r, a, hq⟩ : ∃ o r a, stageOf t = .settled o r a := by
    change Stage.Answers (stageOf t) _ at hans
    generalize stageOf t = q at hans
    cases q with
    | settled o r a => exact ⟨o, r, a, rfl⟩
    | aside => exact absurd rfl (hans v)
    | _ => exact hans.elim
  have hreply : (stageOf t).makes = some (.vcAccountLinks, v) := by
    rw [show (protocol cfg core).relax.state t = _ from hq] at hans
    have hans' : Reply.vc v = replyOf o r := hans
    rw [hq]
    unfold replyOf at hans'
    cases hc : creates o <;> rw [hc] at hans' <;> cases hans'
    simp [Stage.makes, hc]
  exact ⟨hreply, hk.owner_of_makes ht hreply (by rw [hq]; exact nofun)⟩

end System

end Ownership

end HelixServer
