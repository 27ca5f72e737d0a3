import HelixServer.Ownership.Links
import Mathlib.Logic.Relation

/-!
# Ownership follows the enrollment chain

A credential is issued directly, or descends from an enrollment token through the requests that
redeem it.  Its owner is the account of the root request, or none when the root request has no
account (`owner_of_response`); a request that redeems what another one is still creating can find no
owner, and then its credential has none (`owner_of_response_fails`).

The proof follows the chain with the invariant of the link tables (`Linking`): what a request finds
is the owner of what it presents, or none if that was not linked yet.

## Main definitions

* `Redeems s t t'` : `t` presents the token or the challenge that `t'` has created.
* `RootOf s t root` : `root` is the request at the root of the chain of `t`.
* `InTurn` : a request makes all its calls after another one has ended.
* `Assumed` : what is assumed of the core services, and that no link write fails.
-/

namespace HelixServer

namespace Ownership

open Async Relation

variable {cfg : Config} {core : Core}

/-! ### Chains of requests -/

/-- The request `t` presents the token or the challenge that `t'` has created. -/
def Redeems (s : State cfg core) (t t' : Task (server cfg core)) : Prop :=
  t' ∈ s.tasks ∧ ∃ x, (coreOp t.call).bind presents = some x ∧ CreatedBy t' x

/-- The request at the root of the chain of `t`, which presents nothing. -/
def RootOf (s : State cfg core) (t root : Task (server cfg core)) : Prop :=
  ReflTransGen (Redeems s) t root ∧ (coreOp root.call).bind presents = none

/-- Along the chain from `t` to `root`, each request makes its calls after the one whose token or
challenge it presents has ended. -/
def InTurn (s : State cfg core) : Task (server cfg core) → Task (server cfg core) → Prop :=
  ReflTransGen fun t t' => Redeems s t t' ∧ t'.running = false ∧ After t t'

/-! ### What is assumed -/

/-- The core services create what has not been created before, and redeem only what has. -/
def CoreAssumed (s : State cfg core) : Op → Prop
  | .core o => ∀ r ∈ (core.exec o s.world.core).1.toOption,
      ¬ Created s (creates o, r) ∧ ∀ x ∈ presents o, Created s x
  | _ => True

/-- What is assumed of the core services, and that no link write fails. -/
def Assumed : Discipline (server cfg core) := fun s l =>
  match l with
  | .step i => ∀ o ∈ s.nextCall i, CoreAssumed s o
  | .fail i => ∀ o ∈ s.nextCall i, isLink o = false
  | _ => True

instance (s : State cfg core) : DecidablePred (CoreAssumed s) :=
  Op.Decides.decide
    { core := fun _ =>
        inferInstanceAs (Decidable (∀ r ∈ _, ¬ Created s _ ∧ ∀ x ∈ _, Created s x)) }

instance (s : State cfg core) (l : Label (server cfg core)) : Decidable (Assumed s l) :=
  match l with
  | .step i => inferInstanceAs (Decidable (∀ o ∈ s.nextCall i, CoreAssumed s o))
  | .fail i => inferInstanceAs (Decidable (∀ o ∈ s.nextCall i, isLink o = false))
  | .start _ | .env _ => .isTrue trivial

/-! ### What every step keeps -/

section System

variable {s s' : State cfg core} {i : ℕ} {t t' : Task (server cfg core)} {w' : World core}

/-- What holds after every step: what has been created was drawn from something that exists. -/
structure Linked (s : State cfg core) : Prop extends Linking s where
  drawn : ∀ t ∈ s.tasks, (stageOf t).makes.isSome → ∀ x ∈ (stageOf t).looked,
    ∃ t' ∈ s.tasks, (stageOf t').makes = some x

theorem protocol_sound : (protocol cfg core).Sound Assumed where
  prog := obeys_prog
  reject := by
    intro s i t o k e w _ _ _ ha he o' r a hq
    rw [show (protocol cfg core).state t = _ from hq] at ha
    exact link_not_refused ha he
  fail := by
    intro s i t o k hc ht hp ha o' r a hq
    rw [show (protocol cfg core).state t = _ from hq] at ha
    have hlink := hc o (Sys.nextCall_eq ht hp)
    cases o with
    | links table o => cases o <;> first | exact ha.elim | cases hlink
    | _ => exact ha.elim

theorem fresh_of_assumed {l : Label (server cfg core)} (h : Assumed s l) : Fresh s l := by
  cases l with
  | step i =>
    intro o ho
    have hcore := h o ho
    cases o with
    | core o => exact fun r hr => (hcore r hr).1
    | _ => trivial
  | _ => trivial

theorem made_looked {o : CoreOp} {r : String} {owner : Option String} :
    (Stage.made o r owner).looked = presents o := by
  unfold Stage.made
  cases truthy owner <;> rfl

/-- A call keeps what the request has created, which is looked up before. -/
theorem Turn.drawn {w : World core} {q q' : Stage} {o : Op} {r : o.Res} (h : Turn cfg w q o r q') :
    (∀ x, q.makes = some x → q'.makes = some x) ∧ (q'.makes.isSome →
      q.makes.isSome ∧ q'.looked = q.looked ∨ ∃ c, o = .core c ∧ q'.looked = presents c) := by
  cases h with
  | stay _ _ _ _ _ _ => exact ⟨fun _ h => h, fun h => .inl ⟨h, rfl⟩⟩
  | lookUp _ _ _ _ => exact ⟨nofun, nofun⟩
  | lookOwner _ _ _ => exact ⟨nofun, nofun⟩
  | issue c _ | issueFor c _ _ | redeem c _ _ => exact ⟨nofun, fun _ => .inr ⟨c, rfl, made_looked⟩⟩
  | link _ _ _ => exact ⟨fun _ h => h, fun h => .inl ⟨h, rfl⟩⟩

/-- **A step keeps the invariant** if the core redeems only what has been created. -/
theorem Linked.step (hk : Linked s) (hk' : Linking s') (ho : (protocol cfg core).relax.Obeyed s)
    {l : Label (server cfg core)} (hl : Assumed s l) (hst : Step s l s') : Linked s' := by
  refine ⟨hk', ?_⟩
  have hold : ∀ {i : ℕ} {t t' : Task (server cfg core)} {w' : World core}, s.tasks[i]? = some t →
      (∀ x, (stageOf t).makes = some x → (stageOf t').makes = some x) →
      ((stageOf t').makes.isSome → ∀ x ∈ (stageOf t').looked,
        ∃ t₁ ∈ s.tasks, (stageOf t₁).makes = some x) →
      ∀ t₁ ∈ (s.put w' i t').tasks, (stageOf t₁).makes.isSome → ∀ x ∈ (stageOf t₁).looked,
        ∃ t₂ ∈ (s.put w' i t').tasks, (stageOf t₂).makes = some x := by
    intro i t t' w' ht hmakes hnew t₁ ht₁ hsome x hx
    refine Sys.exists_mem_put ht (hmakes x) ?_
    rcases Sys.mem_put ht₁ with rfl | hm
    · exact hnew hsome x hx
    · exact hk.drawn t₁ hm hsome x hx
  cases hst with
  | start c =>
    intro t ht hsome x hx
    rcases List.mem_append.1 ht with ht | ht
    · obtain ⟨t', ht', h⟩ := hk.drawn t ht hsome x hx
      exact ⟨t', List.mem_append_left _ ht', h⟩
    · obtain rfl := List.mem_singleton.1 ht
      rw [show (stageOf (.fresh c : Task (server cfg core))).looked = none from
        (start_shows c).2.2.2.1] at hx
      cases hx
  | env he => exact hk.drawn
  | @call i t o k r w ht hp he =>
    have hturn := turn_of_step (p := k r) (ho.allowed ht hp) he
    refine hold ht hturn.drawn.1 fun hsome x hx => ?_
    rcases hturn.drawn.2 hsome with ⟨hsome', hlooked⟩ | ⟨c, rfl, hlooked⟩
    · exact hk.drawn t (List.mem_of_getElem? ht) hsome' x (by rw [← hlooked]; exact hx)
    · have hans : (core.exec c s.world.core).1 = .ok r := congrArg Prod.fst he
      have hcore := hl _ (Sys.nextCall_eq ht hp) r (by rw [hans]; rfl)
      exact hk.created_iff.1 (hcore.2 x (by rw [← hlooked]; exact hx))
  | @reject i t o k e w ht hp he =>
    exact hold ht (fun _ h => h) (hk.drawn t (List.mem_of_getElem? ht))
  | @fail i t o k ht hp hf => exact hold ht (fun _ h => h) (hk.drawn t (List.mem_of_getElem? ht))

theorem linked_of_run (hinj : Function.Injective cfg.runtime.hashToken) {w₀ : World core}
    (hids : ∀ r ∈ w₀.accounts, r.id ≠ "") (hlinks : ∀ table, w₀.links table = [])
    (h : Run Assumed (Sys.init w₀ : State cfg core) s) :
    (protocol cfg core).Obeyed s ∧ Linked s := by
  have hlinking : ∀ {s}, Run Assumed (Sys.init w₀ : State cfg core) s →
      (protocol cfg core).relax.Obeyed s ∧ Linking s := fun h =>
    linking_of_run hinj hids hlinks (h.mono fun _ _ => fresh_of_assumed)
  refine ⟨Protocol.obeys_of_run protocol_sound (Protocol.obeyed_init w₀) h, h.invariant ?_ ?_⟩
  · exact ⟨(hlinking (.refl _)).2, nofun⟩
  · intro s l s' hr ih hl hst
    exact ih.step (hlinking (hr.tail hl hst)).2 (hlinking hr).1 hl hst

/-! ### Along a chain -/

theorem running_of_created (h : (protocol cfg core).Follows t) {o : CoreOp} {r a : String}
    (hq : stageOf t = .created o r a) : t.running = true := by
  rcases h with ⟨-, hf⟩ | h
  · exact absurd hq (hf o r a)
  · rw [show (protocol cfg core).state t = _ from hq] at h
    cases hp : t.prog with
    | call o k => exact Task.running_of_call hp
    | raise e => rw [hp] at h; exact absurd rfl (h o r a)
    | pure reply => rw [hp] at h; exact h.elim

/-- What a request finds is the owner of what it presents, or none if the other request has not
ended. -/
theorem Linked.redeems (hk : Linked s) (ho : (protocol cfg core).Obeyed s) (ht : t ∈ s.tasks)
    (hsome : (stageOf t).makes.isSome) (h : Redeems s t t') : (stageOf t').makes.isSome ∧
      ((stageOf t).owner = none ∨ (stageOf t).owner = (stageOf t').owner) ∧
      (t'.running = false → After t t' → (stageOf t).owner = (stageOf t').owner) := by
  obtain ⟨ht', x, hx, hcreated⟩ := h
  have hx' := (hk.traced t' ht').createdBy_iff.1 hcreated
  obtain ⟨y, hy⟩ := Option.isSome_iff_exists.1 hsome
  have hlooked : x ∈ (stageOf t).looked := by
    rw [looked_of_makes hy, (hk.traced t ht).op]
    exact hx
  refine ⟨by rw [hx']; rfl, ?_⟩
  cases howner : (stageOf t).owner with
  | some a =>
    obtain ⟨t₁, ht₁, hmakes, ha, -⟩ := (hk.links x a).1 (hk.found t ht x hlooked a howner)
    obtain rfl := hk.eq_of_makes ht₁ ht' hmakes hx'
    exact ⟨.inr ha.symm, fun _ _ => ha.symm⟩
  | none =>
    refine ⟨.inl rfl, fun hended hafter => ?_⟩
    rcases (hk.looked t ht x hlooked howner).2 t' ht' hx' with hnone | ⟨o, r, a, hq⟩ | hna
    · exact hnone.symm
    · rw [running_of_created (ho t' ht') hq] at hended
      cases hended
    · exact absurd hafter hna

theorem Linked.rootOf (hk : Linked s) (ho : (protocol cfg core).Obeyed s)
    (h : ReflTransGen (Redeems s) t t') (ht : t ∈ s.tasks) (hsome : (stageOf t).makes.isSome) :
    t' ∈ s.tasks ∧ (stageOf t').makes.isSome ∧
      ((stageOf t).owner = none ∨ (stageOf t).owner = (stageOf t').owner) := by
  induction h using ReflTransGen.head_induction_on with
  | refl => exact ⟨ht, hsome, .inr rfl⟩
  | head h _ ih =>
    obtain ⟨hsome', howner, -⟩ := hk.redeems ho ht hsome h
    obtain ⟨hmem, hmakes, hroot⟩ := ih h.1 hsome'
    refine ⟨hmem, hmakes, howner.elim .inl fun heq => ?_⟩
    rw [heq]
    exact hroot

theorem Linked.inTurn (hk : Linked s) (ho : (protocol cfg core).Obeyed s) (h : InTurn s t t')
    (ht : t ∈ s.tasks) (hsome : (stageOf t).makes.isSome) :
    (stageOf t).owner = (stageOf t').owner := by
  induction h using ReflTransGen.head_induction_on with
  | refl => rfl
  | head h _ ih =>
    obtain ⟨hsome', -, howner⟩ := hk.redeems ho ht hsome h.1
    exact (howner h.2.1 h.2.2).trans (ih h.1.1 hsome')

/-- How far a link table is from the tokens. -/
def depth : AccountLinkTable → ℕ
  | .enrollmentTokenAccountLinks => 0
  | .challengeAccountLinks => 1
  | .vcAccountLinks => 2

theorem depth_presents {o : CoreOp} {x : AccountLinkTable × String} (h : presents o = some x) :
    depth x.1 < depth (creates o) := by
  cases o <;> cases h <;> simp [depth, creates]

theorem Linked.exists_root (hk : Linked s) (n : ℕ) : ∀ {t x}, t ∈ s.tasks →
    (stageOf t).makes = some x → depth x.1 < n → ∃ root, RootOf s t root := by
  induction n with
  | zero => exact fun _ _ h => absurd h (Nat.not_lt_zero _)
  | succ n ih =>
    intro t x ht hx hn
    have hlooked := looked_of_makes hx
    obtain ⟨o, hop, hcreates⟩ := makes_op hx
    have hcall := (hk.traced t ht).op
    rw [hop] at hlooked hcall
    cases hp : presents o with
    | none => exact ⟨t, .refl, by rw [← hcall]; exact hp⟩
    | some y =>
      obtain ⟨t', ht', hy⟩ := hk.drawn t ht (by rw [hx]; rfl) y (by rw [hlooked]; exact hp)
      have hlt := depth_presents hp
      obtain ⟨root, hroot, hnone⟩ := ih ht' hy (by rw [hcreates] at hlt; omega)
      refine ⟨root, .head ⟨ht', y, by rw [← hcall]; exact hp, ?_⟩ hroot, hnone⟩
      exact (hk.traced t' ht').createdBy_iff.2 hy

/-- **Ownership follows the chain.**  The owner of an answered credential is the account of the
request at the root of its chain, if the requests of the chain are made in turn, and otherwise that
account or none; and it never changes. -/
theorem owner_of_response (hinj : Function.Injective cfg.runtime.hashToken) {w₀ : World core}
    (hids : ∀ r ∈ w₀.accounts, r.id ≠ "") (hlinks : ∀ table, w₀.links table = [])
    (h : Run Assumed (Sys.init w₀ : State cfg core) s) (ht : t ∈ s.tasks) {v : String}
    (hv : t.prog = .pure (.vc v)) :
    (∃ root, RootOf s t root) ∧
      (∀ root, RootOf s t root → (owner s v = none ∨ owner s v = bearerAccount root) ∧
        (InTurn s t root → owner s v = bearerAccount root)) ∧
      ∀ s', Run Assumed s s' → owner s' v = owner s v := by
  obtain ⟨ho, hk⟩ := linked_of_run hinj hids hlinks h
  obtain ⟨hmakes, howner⟩ := hk.owner_eq ho.relax ht hv
  have hsome : (stageOf t).makes.isSome := by rw [hmakes]; rfl
  refine ⟨hk.exists_root 3 ht hmakes (Nat.lt_succ_self 2), fun root hroot => ?_, fun s' h' => ?_⟩
  · obtain ⟨hmem, hroot', hchain⟩ := hk.rootOf ho hroot.1 ht hsome
    have hbearer : bearerAccount root = (stageOf root).owner := by
      refine (hk.traced root hmem).bearer (fun haside => ?_) hroot.2
      rw [haside] at hroot'
      cases hroot'
    rw [howner, hbearer]
    exact ⟨hchain, fun hturn => hk.inTurn ho hturn ht hsome⟩
  · obtain ⟨ho', hk'⟩ := linked_of_run hinj hids hlinks (h.trans h')
    obtain ⟨i, hi, hti⟩ := List.mem_iff_getElem.1 ht
    obtain ⟨t₁, ht₁, -, -, hsame⟩ := Run.getElem? h' (List.getElem?_eq_some_iff.2 ⟨hi, hti⟩)
    obtain rfl := hsame (by simp [Task.running, Prog.running, hv])
    rw [howner]
    exact (hk'.owner_eq ho'.relax (List.mem_of_getElem? ht₁) hv).2

end System

/-! ### Runs of the hosted sample server -/

/-- A request of the account for an enrollment token, which will be `tok:0`. -/
def sampleGenerate : Call := .enrollmentTokens sampleRequest ⟨"agent", [], none, none⟩

/-- A request that redeems it, for a credential that will be `vc:1`. -/
def sampleEnroll : Call := .enroll "req" ⟨"tok:0", "did:key:agent", 0, ""⟩

/-- The credential that a request has answered with. -/
def answeredVc (t : Task (server cfg core)) : Option String :=
  match t.prog with
  | .pure (.vc v) => some v
  | _ => none

theorem prog_of_answeredVc {t : Task (server cfg core)} {v : String} (h : answeredVc t = some v) :
    t.prog = .pure (.vc v) := by
  unfold answeredVc at h
  split at h <;> cases h
  assumption

instance (t t' : Task (server cfg core)) : Decidable (After t t') :=
  inferInstanceAs (Decidable (∀ e ∈ t.done, ∀ e' ∈ t'.done, e'.pre.draws < e.pre.draws))

/-- The request `t` for the credential `vc:1` has redeemed the token of `root`, which the account
has made. -/
def Redeemed (s : State cfg core) (root t : Task (server cfg core)) : Prop :=
  root ∈ s.tasks ∧ t ∈ s.tasks ∧ t.prog = .pure (.vc "vc:1") ∧ RootOf s t root ∧
    Redeems s t root ∧ bearerAccount root = some "acct:1"

/-- Requests `0` and `1` of the state show it. -/
def showsRedeemed (s : State cfg core) : Bool :=
  (s.tasks[0]?).any fun root => (s.tasks[1]?).any fun t =>
    answeredVc t == some "vc:1" && decide ((coreOp t.call).bind presents =
        some (.enrollmentTokenAccountLinks, "tok:0") ∧ (coreOp root.call).bind presents = none ∧
      CreatedBy root (.enrollmentTokenAccountLinks, "tok:0") ∧
      bearerAccount root = some "acct:1")

theorem redeemed_of_shows {s : State cfg core} (h : showsRedeemed s = true) :
    ∃ root t, s.tasks[0]? = some root ∧ s.tasks[1]? = some t ∧ Redeemed s root t := by
  obtain ⟨root, h₀, h⟩ := (Option.any_eq_true _ _).1 h
  obtain ⟨t, h₁, h⟩ := (Option.any_eq_true _ _).1 h
  obtain ⟨hv, h⟩ := Bool.and_eq_true_iff.1 h
  obtain ⟨hcall, hroot, hcreated, hb⟩ := of_decide_eq_true h
  have hredeems : Redeems s t root := ⟨List.mem_of_getElem? h₀, _, hcall, hcreated⟩
  exact ⟨root, t, h₀, h₁, List.mem_of_getElem? h₀, List.mem_of_getElem? h₁,
    prog_of_answeredVc (eq_of_beq hv), ⟨.single hredeems, hroot⟩, hredeems, hb⟩

theorem owner_of_response_enroll : ∃ (s : State Config.sampleHosted Core.sample) (root t : _),
    Redeemed s root t ∧ owner s "vc:1" = some "acct:1" := by
  obtain ⟨s, h, hp⟩ := exists_run_of_replay (C := Assumed)
    (s := (Sys.init .sampleHosted : State Config.sampleHosted Core.sample))
    (.start sampleGenerate :: List.replicate 5 (.step 0) ++
      .start sampleEnroll :: List.replicate 3 (.step 1))
    (fun s => showsRedeemed s && (s.tasks[0]?).any fun root => (s.tasks[1]?).any fun t =>
      decide (root.running = false ∧ After t root)) (by decide)
  obtain ⟨hshows, hp⟩ := Bool.and_eq_true_iff.1 hp
  obtain ⟨root, t, h₀, h₁, hr⟩ := redeemed_of_shows hshows
  rw [h₀, Option.any_some, h₁, Option.any_some] at hp
  obtain ⟨hended, hafter⟩ := of_decide_eq_true hp
  obtain ⟨-, ht, hv, hroot, hredeems, hb⟩ := id hr
  obtain ⟨-, howner, -⟩ := owner_of_response (fun _ _ h => h) (by decide)
    (by rintro (_ | _ | _) <;> rfl) h ht hv
  have hturn : InTurn s t root := .single ⟨hredeems, hended, hafter⟩
  exact ⟨s, root, t, hr, ((howner root hroot).2 hturn).trans hb⟩

/-- **A token redeemed before its link is written gives a credential without an owner.** -/
theorem owner_of_response_fails : ∃ (s : State Config.sampleHosted Core.sample) (root t : _),
    Run Assumed (Sys.init .sampleHosted) s ∧ Redeemed s root t ∧
      owner s "vc:1" ≠ bearerAccount root := by
  obtain ⟨s, h, hp⟩ := exists_run_of_replay (C := Assumed)
    (s := (Sys.init .sampleHosted : State Config.sampleHosted Core.sample))
    (.start sampleGenerate :: List.replicate 3 (.step 0) ++
      .start sampleEnroll :: List.replicate 2 (.step 1))
    (fun s => showsRedeemed s && owner s "vc:1" == none) (by decide)
  obtain ⟨hshows, hp⟩ := Bool.and_eq_true_iff.1 hp
  obtain ⟨root, t, -, -, hr⟩ := redeemed_of_shows hshows
  refine ⟨s, root, t, h, hr, ?_⟩
  rw [eq_of_beq hp, hr.2.2.2.2.2]
  exact nofun

end Ownership

end HelixServer
