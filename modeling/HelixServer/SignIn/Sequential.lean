import HelixServer.SignIn.Race

/-!
# Concurrent sign-ups in a sequential order

Each sign-up takes effect at one call: where it looks up the account that it finds, where it links
it, or where it creates it; only a refused Google sign-in can have to be put earlier, at a state
that the order visits after its first look-up.  So sign-ups that do not race have a sequential order
in which each ends as it does (`signUps_sequential`).  Where two of them race to create an account,
the unique index rejects the second insert, and the request ends in the error of the store
(`signUps_raw_error`).

## Main definitions

* `Refusing`, `Waiting` : where a Google sign-in that is not verified can be put.
* `Advances` : how the order moves with a step of a request.
* `Ordered` : the invariant.
-/

namespace HelixServer

namespace SignIn

open Async

variable {cfg : Config} {core : Core}

/-- A program has ended with the outcome. -/
def EndsWith : Promise Reply → Outcome → Prop
  | .pure (.session account _), .signedIn id => account.id = id
  | .raise e, .refused e' => e = e'
  | _, _ => False

/-! ### The invariant -/

/-- The address `e` has an account, and no account has the Google id `g`. -/
def Refusing (e g : String) (ms : List Member) : Prop :=
  (∃ m ∈ ms, m.email = e) ∧ ∀ m ∈ ms, m.googleId ≠ some g

/-- What a Google sign-in that is not verified waits for: the address is free, or the order visits a
state where the sign-in is refused, or the sign-in has been overtaken. -/
def Waiting (cfg : Config) (e : String) (ms₀ : List Member) (s : State cfg core)
    (order : List Ending) (t : Task (server cfg core)) (g : String) : Prop :=
  ((directory s.world).Free e ∧ ∀ ev ∈ t.done, ∀ r ∈ ev.pre.accounts, r.email ≠ e) ∨
    (spec cfg).Visits ms₀ order (members (directory s.world)) (Refusing e g) ∨
      OvertakenBy s t e g

/-- What holds of the order in which the sign-ups have taken effect. -/
structure Ordered (cfg : Config) (e : String) (ms₀ : List Member) (s : State cfg core)
    (order : List Ending) : Prop extends Regular cfg e s where
  path : (spec cfg).Path ms₀ order (members (directory s.world))
  nodup : (order.map (·.party)).Nodup
  endings : ∀ x ∈ order, ∃ t, s.tasks[x.party]? = some t ∧ t.call = x.signUp.call ∧
    (stageOf t).outcome = some x.outcome
  ended : ∀ i t o, s.tasks[i]? = some t → (stageOf t).outcome = some o →
    ∃ x : SignUp, t.call = x.call ∧ ⟨i, x, o⟩ ∈ order
  waiting : ∀ t ∈ s.tasks, ∀ profile, stageOf t = .unbound profile → profile.emailVerified = false →
    Waiting cfg e ms₀ s order t profile.googleId

/-! ### The order moves with a request -/

/-- The order and the members after a step of the party `i`, which makes the sign-up `x` and goes
from the stage `q` to `q'`. -/
structure Advances (cfg : Config) (ms₀ : List Member) (order : List Ending)
    (ms : List Member) (i : ℕ)
    (x : SignUp) (q : Stage) (order' : List Ending) (ms' : List Member) (q' : Stage) : Prop where
  path : (spec cfg).Path ms₀ order' ms'
  visits : ∀ p, (spec cfg).Visits ms₀ order ms p → (spec cfg).Visits ms₀ order' ms' p
  ended : order' = order ∧ q'.outcome = q.outcome ∨
    q.outcome = none ∧ ∃ o, q'.outcome = some o ∧ order'.Perm (⟨i, x, o⟩ :: order)

section Order

variable {e : String} {ms₀ ms ms' : List Member} {order order' : List Ending} {i : ℕ} {x : SignUp}
  {q q' : Stage} {o : Outcome} {d d' : Directory} {profile : GoogleProfile}

theorem advances_keep (h : (spec cfg).Path ms₀ order ms) (hq : q'.outcome = q.outcome) :
    ∃ order', Advances cfg ms₀ order ms i x q order' ms q' :=
  ⟨order, h, fun _ hp => hp, .inl ⟨rfl, hq⟩⟩

theorem advances_extend (h : (spec cfg).Extends ms₀ order ms ⟨i, x, o⟩ order' ms')
    (hq : q.outcome = none) (hq' : q'.outcome = some o) :
    ∃ order', Advances cfg ms₀ order ms i x q order' ms' q' :=
  ⟨order', h.path, h.visits, .inr ⟨hq, o, hq', h.perm⟩⟩

theorem advances_snoc (id : String) (h : (spec cfg).Path ms₀ order ms)
    (hst : alone cfg id ms x = (o, ms')) (hq : q.outcome = none) (hq' : q'.outcome = some o) :
    ∃ order', Advances cfg ms₀ order ms i x q order' ms' q' :=
  advances_extend (Lts.extends_snoc h ⟨id, hst⟩) hq hq'

/-- A Google sign-in that is not verified is refused where an account with another Google id has its
e-mail. -/
theorem alone_refused (h : Refusing e profile.googleId ms)
    (he : normalizeEmail cfg.runtime profile.email = e)
    (hverified : profile.emailVerified = false) : alone cfg "" ms (.loginWithGoogle profile) =
      (.refused (.accountNotFound "Google account email is not verified"), ms) := by
  obtain ⟨⟨m, hm, hemail⟩, hfree⟩ := h
  have hnone : ms.find? (·.googleId == some profile.googleId) = none :=
    find?_free fun m hm => by simpa using hfree m hm
  cases hfind : ms.find? (·.email == normalizeEmail cfg.runtime profile.email) with
  | none => exact absurd (hemail.trans he.symm) (by simpa using List.find?_eq_none.1 hfind m hm)
  | some m' => simp [alone, hnone, hfind, hverified]

/-- Linking a Google id to the account that has it already changes nothing. -/
theorem members_bind_of_bound {l : Login} {g : String} (hd : d.Distinct) (hl : l ∈ d.logins)
    (hg : l.googleId = some g) : members (d.bind l.id g) = members d := by
  rw [members_bind]
  refine (List.map_congr_left fun m hm => ?_).trans (List.map_id' _)
  obtain ⟨l', hl', rfl⟩ := List.mem_map.1 hm
  unfold Member.bind
  split_ifs with hid
  · obtain rfl := hd.eq_of_id hl' hl hid
    simp [memberOf, hg]
  · rfl

/-- **A move of a sign-up moves the order on.** -/
theorem Move.advances (h : Move cfg d q d' q') (hof : q.Of cfg x.call)
    (hx : normalizeEmail cfg.runtime x.email = e) (hms : Indexed (members d)) (hd : d.Distinct)
    (hpath : (spec cfg).Path ms₀ order (members d)) (hknown : ∀ r ∈ q.subject, Known d r)
    (hfree : q.Creating → d.Free e) (hloose : q.Loose e d)
    (hrefused : ∀ profile, q = .unbound profile → profile.emailVerified = false → d.Free e ∨
      (spec cfg).Visits ms₀ order (members d) (Refusing e profile.googleId)) :
    ∃ order', Advances cfg ms₀ order (members d) i x q order' (members d') q' := by
  have hreg : ∀ {input}, x.call = .register input → x = .register input := by
    intro input hcall; cases x <;> cases hcall; rfl
  have hgoogle : ∀ {profile}, x.call = .loginWithGoogle profile → x = .loginWithGoogle profile := by
    intro profile hcall; cases x <;> cases hcall; rfl
  cases h with
  | stay _ | free _ _ | hash _ _ | unbound _ _ | vacant _ _ | identify _ _ _ _ _ | draw _ _ _
  | issue _ _ _ => exact advances_keep hpath rfl
  | taken input l hl hemail =>
    obtain rfl := hreg hof
    exact advances_snoc "" hpath (alone_taken hms (mem_members hl) hemail) rfl rfl
  | register input passwordHash id hid =>
    obtain rfl := hreg hof.1
    subst hx
    have hst : alone cfg id (members d) (.register input) = _ :=
      alone_register (members_forall (hfree trivial))
    rw [members_enrol]
    exact advances_snoc id hpath hst rfl rfl
  | bound profile l hl hbound =>
    obtain rfl := hgoogle hof
    exact advances_snoc "" hpath (alone_bound hms (mem_members hl) hbound) rfl rfl
  | unverified profile l hl hemail hverified =>
    obtain rfl := hgoogle hof
    rcases hrefused profile rfl hverified with hfree | hvisits
    · exact absurd (hemail.trans hx) (hfree l hl)
    · obtain ⟨order', hext⟩ := Lts.extends_insert (l := ⟨i, .loginWithGoogle profile, _⟩)
        (spec_deterministic cfg) hvisits fun ms hms => ⟨"", alone_refused hms hx hverified⟩
      exact advances_extend hext rfl rfl
  | link profile r =>
    obtain ⟨hcall, hverified, hemail⟩ := hof
    obtain rfl := hgoogle hcall
    obtain ⟨l, hl, hsame⟩ := hknown r rfl
    have hlid : l.id = r.id := hsame.id
    have hle : l.email = normalizeEmail cfg.runtime profile.email := hsame.email.trans hemail
    by_cases hbound : ∃ l' ∈ d.logins, l'.googleId = some profile.googleId
    · -- another request has linked this Google id, to this very account
      obtain ⟨l', hl', hg⟩ := hbound
      have hle' : l'.email = e := by
        by_contra hne
        exact hloose profile rfl l' hl' hne hg
      have hid : l'.id = r.id := by
        rw [← hlid]
        exact congrArg Member.id (hms.email _ (mem_members hl') _ (mem_members hl)
          (hle'.trans (hle.trans hx).symm))
      rw [← hid, members_bind_of_bound hd hl' hg]
      exact advances_snoc "" hpath (alone_bound hms (mem_members hl') hg) rfl rfl
    · have hnone : ∀ l' ∈ d.logins, l'.googleId ≠ some profile.googleId :=
        fun l' hl' hg => hbound ⟨l', hl', hg⟩
      have hst : alone cfg "" (members d) (.loginWithGoogle profile) = _ :=
        alone_match hms (members_forall hnone) (mem_members hl) hle
      rw [if_pos hverified] at hst
      rw [members_bind, ← hlid]
      exact advances_snoc "" hpath hst rfl rfl
  | registerByGoogle profile id hid =>
    obtain rfl := hgoogle hof
    subst hx
    have hemails := hfree trivial
    have hnone : ∀ l ∈ d.logins, l.googleId ≠ some profile.googleId :=
      fun l hl => hloose profile rfl l hl (hemails l hl)
    have hst : alone cfg id (members d) (.loginWithGoogle profile) = _ :=
      alone_create (members_forall hnone) (members_forall hemails)
    rw [members_enrol]
    exact advances_snoc id hpath hst rfl rfl
  | miss _ | find _ _ _ _ _ _ | dismiss _ | present _ _ _ _ => cases x <;> cases hof
  | pass _ _ _ _ | fail _ _ _ | renew _ _ => obtain ⟨_, hcall, -⟩ := hof; cases x <;> cases hcall

end Order

/-! ### The order moves with the server -/

section Steps

variable {e : String} {ms₀ : List Member} {order order' : List Ending} {s s' : State cfg core}
  {l : Label (server cfg core)} {i : ℕ} {t : Task (server cfg core)} {o : Op}
  {k : o.Res → Promise Reply} {r : o.Res} {w : World core} {g : String}

/-- Where the address has an account, a Google sign-in that has been waiting is refused or has been
overtaken. -/
theorem waiting_of_found {l : Login} (hdone : ∀ ev ∈ t.done, ∀ r ∈ ev.pre.accounts, r.email ≠ e)
    (hpath : (spec cfg).Path ms₀ order (members (directory s.world)))
    (hms : Indexed (members (directory s.world)))
    (hloose : ∀ l ∈ (directory s.world).logins, l.email ≠ e → l.googleId ≠ some g)
    (hl : l ∈ (directory s.world).logins) (he : l.email = e)
    (hcreated : l.googleId = some g → CreatedWith s l.id (some g)) :
    Waiting cfg e ms₀ s order t g := by
  by_cases hg : l.googleId = some g
  · obtain ⟨r, hr, rfl⟩ := List.mem_map.1 hl
    exact .inr (.inr ⟨hdone, r, hr, he, hg, hcreated hg⟩)
  · have hrefusing : Refusing e g (members (directory s.world)) := by
      refine ⟨⟨_, mem_members hl, he⟩, members_forall fun l' hl' hg' => ?_⟩
      by_cases he' : l'.email = e
      · have hsame := hms.email _ (mem_members hl') _ (mem_members hl) (he'.trans he.symm)
        exact hg ((congrArg Member.googleId hsame).symm.trans hg')
      · exact hloose l' hl' he' hg'
    exact .inr (.inl (hpath.visits_last hrefusing))

/-- A Google sign-in keeps waiting while others make their steps. -/
theorem Waiting.step (h : Waiting cfg e ms₀ s order t g)
    (hev : Evolves (directory s.world) (directory s'.world))
    (hnew : ∀ l ∈ (directory s'.world).logins, (∃ l₀ ∈ (directory s.world).logins, l₀.id = l.id) ∨
      CreatedWith s' l.id l.googleId)
    (hmono : ∀ id g, CreatedWith s id g → CreatedWith s' id g)
    (hvisits : ∀ p, (spec cfg).Visits ms₀ order (members (directory s.world)) p →
      (spec cfg).Visits ms₀ order' (members (directory s'.world)) p)
    (hpath : (spec cfg).Path ms₀ order' (members (directory s'.world))) (hs' : Regular cfg e s')
    (hloose : ∀ l ∈ (directory s'.world).logins, l.email ≠ e → l.googleId ≠ some g) :
    Waiting cfg e ms₀ s' order' t g := by
  rcases h with ⟨hfree, hdone⟩ | hrefused | ⟨hdone, r, hr, he, hg, hcreated⟩
  · by_cases hfree' : (directory s'.world).Free e
    · exact .inl ⟨hfree', hdone⟩
    · obtain ⟨l, hl, he⟩ : ∃ l ∈ (directory s'.world).logins, l.email = e := by
        simpa [Directory.Free] using hfree'
      refine waiting_of_found hdone hpath hs'.indexed hloose hl he fun hg => ?_
      rcases hnew l hl with ⟨l₀, hl₀, hid⟩ | hcreated
      · -- an old account with the address, but there was none
        obtain ⟨l', hl', hsame⟩ := hev.logins l₀ hl₀
        obtain rfl := hs'.consistent.distinct.eq_of_id hl' hl (hsame.id.trans hid)
        exact absurd (hsame.email.symm.trans he) (hfree l₀ hl₀)
      · rwa [hg] at hcreated
  · exact .inr (.inl (hvisits _ hrefused))
  · obtain ⟨l, hl, hsame⟩ := hev.logins _ (mem_logins hr)
    have hid : l.id = r.id := hsame.id
    exact waiting_of_found hdone hpath hs'.indexed hloose hl (hsame.email.trans he) fun _ => by
      rw [hid]
      exact hmono _ _ hcreated

/-- What has been created before a call has been created after it. -/
theorem createdWith_call (ht : s.tasks[i]? = some t) {id : String} {g : Option String}
    (h : CreatedWith s id g) : CreatedWith (s.put w i (t.resume s.world o r (k r))) id g := by
  refine Sys.exists_mem_put ht ?_ h
  rintro ⟨ev, hev, heq⟩
  exact ⟨ev, List.mem_append_left _ hev, heq⟩

/-- After a call every account is an old one, or has been created by a request. -/
theorem old_or_createdWith (h : Regular cfg e s) (hk : cfg.storage.hasUniqueIndexes = true)
    (ht : s.tasks[i]? = some t) (hp : t.prog = .call o k) (he : o.exec cfg s.world = (.ok r, w)) :
    ∀ l ∈ (directory w).logins, (∃ l₀ ∈ (directory s.world).logins, l₀.id = l.id) ∨
      CreatedWith (s.put w i (t.resume s.world o r (k r))) l.id l.googleId := by
  have hnew : NewDraws s (.step i) := newDraws_of_indexed hk
  intro l hl
  refine (created_or_old (distinctIds_iff.2 h.consistent.distinct)
    (hnew o (Sys.nextCall_eq ht hp)).1 he l hl).imp_right fun hcreated => ?_
  refine ⟨_, List.mem_of_getElem? ((Sys.put_getElem? ht).trans (if_pos rfl)), ⟨o, r, s.world⟩, ?_,
    hcreated⟩
  exact List.mem_concat_self

/-- A Google sign-in that has not been overtaken is refused at a state that the order visits. -/
theorem Ordered.refused (h : Ordered cfg e ms₀ s order) (hu : Unraced s (.step i))
    (ht : s.tasks[i]? = some t) (hp : t.prog = .call o k) {profile : GoogleProfile}
    (hq : stageOf t = .unbound profile) (hverified : profile.emailVerified = false) :
    (directory s.world).Free e ∨ (spec cfg).Visits ms₀ order (members (directory s.world))
      (Refusing e profile.googleId) := by
  have hmem := List.mem_of_getElem? ht
  rcases h.waiting t hmem profile hq hverified with ⟨hfree, -⟩ | hrefused | hovertaken
  · exact .inl hfree
  · exact .inr hrefused
  · -- the request looks up its e-mail next
    obtain ⟨x, hcall, hx, hof, -⟩ := h.task ht
    have ha : (stageOf t).Allows cfg o := h.obeyed.allowed ht hp
    rw [hq] at ha hof
    subst ha
    cases x <;> cases hof
    refine absurd ?_ ((hu _ (Sys.nextCall_eq ht hp)).2 rfl t ht)
    unfold Overtaken
    rw [hcall]
    exact ⟨hverified, hx ▸ hovertaken⟩

section Entries

variable (h : Ordered cfg e ms₀ s order) (ht : s.tasks[i]? = some t) {x : SignUp}
  {d : Directory}
    (hadv : Advances cfg ms₀ order (members (directory s.world)) i x (stageOf t) order'
    (members d) ((stageOf t).next o r))
include h ht hadv

theorem Ordered.nodup_advance : (order'.map (·.party)).Nodup := by
  rcases hadv.ended with ⟨rfl, -⟩ | ⟨hnone, out, -, hperm⟩
  · exact h.nodup
  · have hmap := hperm.map (·.party)
    rw [hmap.nodup_iff, List.map_cons, List.nodup_cons]
    refine ⟨fun hmem => ?_, h.nodup⟩
    obtain ⟨y, hy, hi⟩ := List.mem_map.1 hmem
    obtain ⟨t', ht', -, hout⟩ := h.endings y hy
    have hi : y.party = i := hi
    rw [hi, ht] at ht'
    cases ht'
    rw [hnone] at hout
    cases hout

theorem Ordered.endings_advance (hcall : t.call = x.call) : ∀ y ∈ order',
    ∃ t', (s.put w i (t.resume s.world o r (k r))).tasks[y.party]? = some t' ∧
      t'.call = y.signUp.call ∧ (stageOf t').outcome = some y.outcome := by
  intro y hy
  rw [Sys.put_getElem? ht]
  by_cases hi : i = y.party
  · refine ⟨_, if_pos hi, ?_⟩
    rw [stageOf_resume, Task.resume_call]
    rcases hadv.ended with ⟨rfl, hsame⟩ | ⟨hnone, out, hout, hperm⟩
    · obtain ⟨t', ht', hcall', hout⟩ := h.endings y hy
      obtain rfl : t = t' := Option.some.inj (ht.symm.trans (hi ▸ ht'))
      exact ⟨hcall', hsame.trans hout⟩
    · rcases List.mem_cons.1 (hperm.mem_iff.1 hy) with rfl | hy
      · exact ⟨hcall, hout⟩
      · obtain ⟨t', ht', -, hout'⟩ := h.endings y hy
        obtain rfl : t = t' := Option.some.inj (ht.symm.trans (hi ▸ ht'))
        rw [hnone] at hout'
        cases hout'
  · rw [if_neg hi]
    rcases hadv.ended with ⟨rfl, -⟩ | ⟨-, out, -, hperm⟩
    · exact h.endings y hy
    · rcases List.mem_cons.1 (hperm.mem_iff.1 hy) with rfl | hy
      · exact absurd rfl hi
      · exact h.endings y hy

theorem Ordered.ended_advance (hcall : t.call = x.call) : ∀ j t' out,
    (s.put w i (t.resume s.world o r (k r))).tasks[j]? = some t' →
      (stageOf t').outcome = some out → ∃ x : SignUp, t'.call = x.call ∧ ⟨j, x, out⟩ ∈ order' := by
  have hmono : ∀ y ∈ order, y ∈ order' := by
    rcases hadv.ended with ⟨rfl, -⟩ | ⟨-, out, -, hperm⟩
    · exact fun _ hy => hy
    · exact fun y hy => hperm.mem_iff.2 (List.mem_cons_of_mem _ hy)
  intro j t' out ht' hout
  rw [Sys.put_getElem? ht] at ht'
  by_cases hij : i = j
  · subst hij
    obtain rfl := Option.some.inj ((if_pos rfl).symm.trans ht')
    rw [stageOf_resume] at hout
    rcases hadv.ended with ⟨rfl, hsame⟩ | ⟨-, out', hout', hperm⟩
    · exact h.ended i t out ht (hsame.symm.trans hout)
    · obtain rfl : out' = out := Option.some.inj (hout'.symm.trans hout)
      exact ⟨x, hcall, hperm.mem_iff.2 (List.mem_cons_self)⟩
  · rw [if_neg hij] at ht'
    obtain ⟨x', hcall', hmem⟩ := h.ended j t' out ht' hout
    exact ⟨x', hcall', hmono _ hmem⟩

end Entries

/-- **A call moves the order on.** -/
theorem Ordered.call (h : Ordered cfg e ms₀ s order) (hk : cfg.storage.hasUniqueIndexes = true)
    (hu : Unraced s (.step i)) (ht : s.tasks[i]? = some t) (hp : t.prog = .call o k)
    (he : o.exec cfg s.world = (.ok r, w))
    (hs' : Regular cfg e (s.put w i (t.resume s.world o r (k r)))) :
    ∃ order', Ordered cfg e ms₀ (s.put w i (t.resume s.world o r (k r))) order' := by
  obtain ⟨x, hcall, hx, hof, hknown⟩ := h.task ht
  obtain ⟨ha, hm⟩ := h.move hk ht hp he
  obtain ⟨order', hadv⟩ := hm.advances (i := i) hof hx h.indexed h.consistent.distinct h.path hknown
    (free_of_unraced h.toRegular hu ht hp) (h.loose t (List.mem_of_getElem? ht))
    fun profile hq hverified => h.refused hu ht hp hq hverified
  refine ⟨order', hs', hadv.path, h.nodup_advance ht hadv, h.endings_advance ht hadv hcall,
    h.ended_advance ht hadv hcall, fun t' ht' profile hq hverified => ?_⟩
  have hloose : ∀ l ∈ (directory w).logins, l.email ≠ e → l.googleId ≠ some profile.googleId :=
    hs'.loose t' ht' profile (by rw [hq]; rfl)
  rcases Sys.mem_put ht' with rfl | hmem
  · -- the request has just found its Google id not bound
    rw [stageOf_resume] at hq
    obtain ⟨hgoogle, hdir, hfree⟩ := google_of_next hm ha hq
    by_cases hvacant : (directory w).Free e
    · refine .inl ⟨hvacant, fun ev hev r' hr' => ?_⟩
      rw [Task.resume_done, h.first t (List.mem_of_getElem? ht) profile hgoogle] at hev
      obtain rfl := List.mem_singleton.1 hev
      exact hvacant _ (hdir ▸ mem_logins hr')
    · obtain ⟨l, hl, hemail⟩ : ∃ l ∈ (directory w).logins, l.email = e := by
        simpa [Directory.Free] using hvacant
      have hrefusing : Refusing e profile.googleId (members (directory w)) :=
        ⟨⟨_, mem_members hl, hemail⟩, members_forall (hdir ▸ hfree)⟩
      exact .inr (.inl (hadv.path.visits_last hrefusing))
  · exact (h.waiting t' hmem profile hq hverified).step hm.evolves
      (old_or_createdWith h.toRegular hk ht hp he) (fun _ _ => createdWith_call ht) hadv.visits
      hadv.path hs' hloose

/-- **Every step of sign-ups that do not race moves their order on.** -/
theorem Ordered.step (h : Ordered cfg e ms₀ s order) (hk : cfg.storage.hasUniqueIndexes = true)
    (hs : Orderly cfg e s l) (hst : Async.Step s l s') : ∃ order', Ordered cfg e ms₀ s' order' := by
  have hs' := h.toRegular.step hk hs hst
  have haccepts := h.accepts hk hs
  cases hst with
  | start c =>
    refine ⟨order, hs', h.path, h.nodup, fun x hx => ?_, fun i t o ht hout => ?_,
      fun t ht profile hq hverified => ?_⟩
    · obtain ⟨t, ht, hcall, hout⟩ := h.endings x hx
      have hi := (List.getElem?_eq_some_iff.1 ht).1
      exact ⟨t, by rw [List.getElem?_append_left hi]; exact ht, hcall, hout⟩
    · rw [List.getElem?_append] at ht
      split_ifs at ht
      · exact h.ended i t o ht hout
      · obtain rfl := List.mem_singleton.1 (List.mem_of_getElem? ht)
        cases c <;> cases hout
    · rcases List.mem_append.1 ht with hmem | hmem
      · refine (h.waiting t hmem profile hq hverified).step (.refl _)
          (fun l hl => .inl ⟨l, hl, rfl⟩)
          ?_ (fun _ hp => hp) h.path hs' (hs'.loose t ht profile (by rw [hq]; rfl))
        rintro id g ⟨t, ht, hcreated⟩
        exact ⟨t, List.mem_append_left _ ht, hcreated⟩
      · obtain rfl := List.mem_singleton.1 hmem
        cases c <;> cases hq
  | @env x w he =>
    have hdir := directory_of_env he
    have hpath : (spec cfg).Path ms₀ order (members (directory w)) := by rw [hdir]; exact h.path
    refine ⟨order, hs', hpath, h.nodup, h.endings, h.ended, fun t ht profile hq hverified => ?_⟩
    refine (h.waiting t ht profile hq hverified).step ?_ ?_
      (fun _ _ hcreated => hcreated) ?_ hpath hs'
      (hs'.loose t ht profile (by rw [hq]; rfl))
    · rw [show directory (Sys.mk w s.tasks : State cfg core).world = _ from hdir]; exact .refl _
    · intro l hl
      exact .inl ⟨l, hdir ▸ hl, rfl⟩
    · intro p hvisits
      rwa [show directory (Sys.mk w s.tasks : State cfg core).world = _ from hdir]
  | call ht hp he => exact h.call hk hs.2 ht hp he hs'
  | @reject i t o k err w ht hp he => exact absurd he (haccepts t o k err w ht hp)
  | fail ht hp hf => exact haccepts.elim

end Steps

/-! ### The server -/

/-- A sign-up answers a session. -/
def sessions (cfg : Config) (core : Core) : Protocol (server cfg core) Call where
  init := id
  next c _ := c
  allowed _ _ := True
  answers c a := SignsUp c → ∃ account tokens, a = .session account tokens
  raises _ _ := True
  fails _ := True

theorem sessions_prog (c : Call) :
    (sessions cfg core).Obeys (sessions cfg core).answers c (c.prog cfg) := by
  have hany : ∀ {α : Type} {post : Call → α → Prop} {p : Promise α}, (∀ a, post c a) →
      (sessions cfg core).Obeys post c p := fun ha =>
    Protocol.obeys_of_uses (Prog.uses_true _) (fun _ _ => ⟨trivial, fun _ _ => rfl⟩)
      (fun _ _ => trivial) ha
  have hstill : ∀ {α : Type} (p : Promise α), (sessions cfg core).Obeys (fun c' _ => c' = c) c p :=
    fun p => hany fun _ => rfl
  cases c with
  | register input =>
    refine (hstill (AuthService.register cfg input)).bind ?_
    rintro _ x rfl -
    exact ⟨x.1, x.2, rfl⟩
  | loginWithGoogle profile =>
    refine (hstill (AuthService.loginWithGoogle cfg profile)).bind ?_
    rintro _ x rfl -
    exact ⟨x.1, x.2, rfl⟩
  | _ => exact hany fun _ hc => hc.elim

section Server

variable {e : String} {w₀ : World core} {s : State cfg core} {i : ℕ} {t : Task (server cfg core)}

theorem ordered_init (hids : DistinctIds w₀) (hu : Accounts.Unique w₀.accounts)
    (hn : ∀ r ∈ w₀.accounts, ∃ x, r.email = normalizeEmail cfg.runtime x) :
    Ordered cfg e (members (directory w₀)) (Sys.init w₀ : State cfg core) [] where
  obeyed := Protocol.obeyed_init w₀
  consistent := consistent_init hids
  unique := hu
  normalized := logins_forall hn
  calls _ ht := absurd ht List.not_mem_nil
  first _ ht := absurd ht List.not_mem_nil
  loose _ ht := absurd ht List.not_mem_nil
  path := .nil _
  nodup := List.nodup_nil
  endings _ hx := absurd hx List.not_mem_nil
  ended _ _ _ ht := by cases ht
  waiting _ ht := absurd ht List.not_mem_nil

theorem sessions_state : (sessions cfg core).state t = t.call := List.foldl_fixed _

theorem Regular.endsWith (h : Regular cfg e s) (hreply : (sessions cfg core).Obeyed s)
    (hdoc : ∀ did publicKey, (cfg.runtime.buildDIDDocument did publicKey).verificationMethod ≠ [])
    (ht : s.tasks[i]? = some t) (hend : t.running = false) :
    ∃ o, (stageOf t).outcome = some o ∧ EndsWith t.prog o := by
  obtain ⟨x, hcall, -, hof, -⟩ := h.task ht
  have hobeys := (h.obeyed t (List.mem_of_getElem? ht)).resolve_left fun hf => hf.2
  have hobeys : (protocol cfg core).Obeys (Stage.Answers cfg) (stageOf t) t.prog := hobeys
  cases hp : t.prog with
  | call o k => rw [Task.running_of_call hp] at hend; cases hend
  | pure a =>
    have hsession := hreply.answers ht hp
    rw [sessions_state, hcall] at hsession
    obtain ⟨account, tokens, rfl⟩ := hsession (by cases x <;> trivial)
    rw [hp] at hobeys
    revert hobeys
    generalize stageOf t = q
    intro hobeys
    cases q with
    | opened id bytes => exact ⟨.signedIn id, rfl, hobeys.1⟩
    | _ => exact hobeys.elim
  | raise err =>
    rw [hp] at hobeys
    revert hof hobeys
    generalize stageOf t = q
    intro hof hobeys
    cases q with
    | refused err' => exact ⟨.refused err', rfl, hobeys⟩
    | ready id bytes =>
      obtain ⟨-, did, publicKey, hnone⟩ := hobeys
      exact absurd hnone (hdoc did publicKey)
    | aside => cases x <;> exact absurd trivial hof
    | holding record => obtain ⟨refreshToken, hcall, -⟩ := hof; cases x <;> cases hcall
    | _ => exact hobeys.elim

theorem Regular.refusal (h : Regular cfg e s) (ht : s.tasks[i]? = some t) {err : HelixError}
    (hout : (stageOf t).outcome = some (.refused err)) : Refuses t.call err := by
  obtain ⟨x, hcall, -, hof, -⟩ := h.task ht
  rw [hcall]
  revert hout hof
  generalize stageOf t = q
  intro hout hof
  cases q with
  | refused err' =>
    obtain rfl : err' = err := Outcome.refused.inj (Option.some.inj hout)
    exact hof
  | _ => cases hout

/-- **Sign-ups that do not race are sequential.**  In every run of sign-ups for one address in which
each inserts its account while the address has none, and no refused one has been overtaken, all
e-mails are in normal form, the address has one account at most, no request ends in an error of the
store, and there is a sequential order of the sign-ups in which each ends as it has ended. -/
theorem signUps_sequential (hk : cfg.storage.hasUniqueIndexes = true)
    (hdoc : ∀ did publicKey, (cfg.runtime.buildDIDDocument did publicKey).verificationMethod ≠ [])
    (hids : DistinctIds w₀) (hu : Accounts.Unique w₀.accounts)
    (hn : ∀ r ∈ w₀.accounts, ∃ x, r.email = normalizeEmail cfg.runtime x)
    (h : Run (Orderly cfg e) (Sys.init w₀ : State cfg core) s) :
    (∀ r ∈ s.world.accounts, ∃ x, r.email = normalizeEmail cfg.runtime x) ∧
      (∀ r ∈ s.world.accounts, ∀ r' ∈ s.world.accounts, r.email = e → r'.email = e →
        r.id = r'.id) ∧
      (∀ t ∈ s.tasks, ∀ err, t.prog = .raise err → Refuses t.call err) ∧
      ∃ order, (spec cfg).Path (members (directory w₀)) order (members (directory s.world)) ∧
        (order.map (·.party)).Nodup ∧
        (∀ y ∈ order, ∃ t, s.tasks[y.party]? = some t ∧ t.call = y.signUp.call) ∧
        ∀ i t, s.tasks[i]? = some t → t.running = false →
          ∃ x o, t.call = x.call ∧ ⟨i, x, o⟩ ∈ order ∧ EndsWith t.prog o := by
  obtain ⟨order, hord⟩ : ∃ order, Ordered cfg e (members (directory w₀)) s order :=
    h.invariant (I := fun s => ∃ order, Ordered cfg e (members (directory w₀)) s order)
      ⟨[], ordered_init hids hu hn⟩ fun _ _ _ _ ⟨_, ih⟩ hs hst => ih.step hk hs hst
  have hreply : (sessions cfg core).Obeyed s := by
    refine Protocol.obeys_of_run ⟨sessions_prog, ?_, ?_⟩ (Protocol.obeyed_init w₀) h
    · exact fun _ _ _ _ _ _ _ _ _ _ _ _ => trivial
    · exact fun _ _ _ _ _ _ _ _ _ => trivial
  refine ⟨fun r hr => hord.normalized _ (mem_logins hr), fun r hr r' hr' he he' => ?_,
    fun t ht err hp => ?_, order, hord.path, hord.nodup, fun y hy => ?_, fun i t ht hend => ?_⟩
  · exact hord.unique r hr r' hr' (by simp [AccountRecord.conflicts, he, he'])
  · obtain ⟨i, hi, hti⟩ := List.mem_iff_getElem.1 ht
    have ht' : s.tasks[i]? = some t := List.getElem?_eq_some_iff.2 ⟨hi, hti⟩
    obtain ⟨o, hout, hends⟩ :=
      hord.endsWith hreply hdoc ht' (by simp [Task.running, hp, Prog.running])
    rw [hp] at hends
    cases o with
    | signedIn id => exact hends.elim
    | refused err' =>
      obtain rfl : err = err' := hends
      exact hord.refusal ht' hout
  · obtain ⟨t, ht, hcall, -⟩ := hord.endings y hy
    exact ⟨t, ht, hcall⟩
  · obtain ⟨o, hout, hends⟩ := hord.endsWith hreply hdoc ht hend
    obtain ⟨x, hcall, hmem⟩ := hord.ended i t o ht hout
    exact ⟨x, o, hcall, hmem, hends⟩

end Server

/-! ### Sign-ups that race -/

/-- The sign-up that a call of the server is. -/
def signUpOf : Call → Option SignUp
  | .register input => some (.register input)
  | .loginWithGoogle profile => some (.loginWithGoogle profile)
  | _ => none

theorem signUpOf_eq_some {c : Call} {x : SignUp} : signUpOf c = some x ↔ c = x.call := by
  cases c <;> cases x <;> simp [signUpOf, SignUp.call]

instance (e : String) : DecidablePred (SignsUpAs cfg e) := fun c =>
  decidable_of_iff (∃ x ∈ signUpOf c, normalizeEmail cfg.runtime x.email = e)
    (exists_congr fun _ => and_congr_left' signUpOf_eq_some)

instance (w : World core) : DecidablePred (Works cfg w) := fun o =>
  inferInstanceAs (Decidable ((∀ _data ∈ creates o, ∀ r ∈ w.accounts, r.id ≠ w.freshId cfg "acct") ∧
    (isIndexed o = false → (o.exec cfg w).1.isOk = true)))

instance (e : String) (s : State cfg core) (l : Label (server cfg core)) :
    Decidable (SignUps cfg e s l) :=
  match l with
  | .start c => inferInstanceAs (Decidable (SignsUpAs cfg e c))
  | .step i => inferInstanceAs (Decidable (∀ o ∈ s.nextCall i, Works cfg s.world o))
  | .fail _ => .isFalse id
  | .env _ => .isTrue trivial

instance (s : State cfg core) (id : String) (g : Option String) : Decidable (CreatedWith s id g) :=
  inferInstanceAs
    (Decidable (∃ t ∈ s.tasks, ∃ ev ∈ t.done, createdWith ev.op ev.res = some (id, g)))

instance (s : State cfg core) (t : Task (server cfg core)) (email g : String) :
    Decidable (OvertakenBy s t email g) :=
  inferInstanceAs (Decidable ((∀ ev ∈ t.done, ∀ r ∈ ev.pre.accounts, r.email ≠ email) ∧
    ∃ r ∈ s.world.accounts, r.email = email ∧ r.googleId = some g ∧ CreatedWith s r.id (some g)))

instance (s : State cfg core) : DecidablePred (Overtaken s) := fun t => by
  unfold Overtaken
  split <;> infer_instance

instance (s : State cfg core) (l : Label (server cfg core)) : Decidable (Unraced s l) :=
  match l with
  | .step i => inferInstanceAs (Decidable (∀ o ∈ s.nextCall i,
      (∀ data ∈ creates o, ∀ r ∈ s.world.accounts, r.email ≠ data.email) ∧
        (looksUpEmail o = true → ∀ t ∈ s.tasks[i]?, ¬ Overtaken s t)))
  | .start _ | .fail _ | .env _ => .isTrue trivial

instance (e : String) (s : State cfg core) (l : Label (server cfg core)) :
    Decidable (Orderly cfg e s l) :=
  inferInstanceAs (Decidable (SignUps cfg e s l ∧ Unraced s l))

/-- A registration. -/
def registration (email password : String) : Call :=
  .register { email, password, companyName := none, fieldOfOperation := none }

/-- The error with which a request has ended. -/
def raised (t : Task (server cfg core)) : Option HelixError :=
  match t.prog with
  | .raise err => some err
  | _ => none

/-- A request has ended with the error. -/
def anyRaised (err : HelixError) (s : State cfg core) : Bool := s.tasks.any (raised · == some err)

theorem anyRaised_iff {s : State cfg core} {err : HelixError} :
    anyRaised err s = true ↔ ∃ t ∈ s.tasks, t.prog = .raise err := by
  have hraised : ∀ t : Task (server cfg core), raised t = some err ↔ t.prog = .raise err := by
    intro t
    unfold raised
    cases t.prog <;> simp
  simp [anyRaised, hraised]

/-- Two registrations that look their address up before either of them inserts its account. -/
def race : List (Label (server Config.sample Core.sample)) :=
  [.start (registration "A@b.c" "p"), .start (registration "a@b.c " "q"), .step 0, .step 1, .step 0,
    .step 1, .step 0, .step 1]

/-- **A registration that loses the race** ends in the error of the store. -/
theorem signUps_raw_error : ∃ s : State Config.sample Core.sample,
    Run (SignUps Config.sample "a@b.c") (Sys.init .sample) s ∧
      ∃ t ∈ s.tasks, t.prog = .raise (.storage "UNIQUE constraint failed: accounts") := by
  obtain ⟨s, h, hp⟩ := exists_run_of_replay (C := SignUps Config.sample "a@b.c")
    (s := (Sys.init .sample : State Config.sample Core.sample)) race
    (anyRaised (.storage "UNIQUE constraint failed: accounts")) (by decide)
  exact ⟨s, h, anyRaised_iff.1 hp⟩

/-- A Google sign-in that is not verified, and that another one with its Google id overtakes. -/
def overtaking : List (Label (server Config.sample Core.sample)) :=
  [.start (.loginWithGoogle ⟨"g", "a@b.c", false⟩), .start (.loginWithGoogle ⟨"g", "a@b.c", true⟩),
    .step 0, .step 1, .step 1, .step 1, .step 0]

/-- **A Google sign-in that is overtaken** is refused, although the account has its Google id. -/
theorem signUps_overtaken : ∃ s : State Config.sample Core.sample,
    Run (SignUps Config.sample "a@b.c") (Sys.init .sample) s ∧
      (∀ r ∈ s.world.accounts, r.googleId = some "g") ∧ ∃ t ∈ s.tasks,
        t.prog = .raise (.accountNotFound "Google account email is not verified") := by
  obtain ⟨s, h, hp⟩ := exists_run_of_replay (C := SignUps Config.sample "a@b.c")
    (s := (Sys.init .sample : State Config.sample Core.sample)) overtaking
    (fun s => s.world.accounts.all (·.googleId == some "g") &&
      anyRaised (.accountNotFound "Google account email is not verified") s) (by decide)
  obtain ⟨hg, hraised⟩ := Bool.and_eq_true_iff.1 hp
  exact ⟨s, h, by simpa using hg, anyRaised_iff.1 hraised⟩

/-- A registration, a Google sign-in that is verified and one that is not, which look up their
Google ids before the registration inserts the account. -/
def overlapping : List (Label (server Config.sample Core.sample)) :=
  [.start (registration "A@b.c" "p"), .start (.loginWithGoogle ⟨"g1", "a@b.c", true⟩),
    .start (.loginWithGoogle ⟨"g2", "a@B.c", false⟩), .step 1, .step 2] ++
      List.replicate 18 (.step 0) ++ List.replicate 11 (.step 1) ++ [.step 2]

/-- Three sign-ups that overlap. -/
theorem signUps_sequential_overlapping : ∃ s : State Config.sample Core.sample,
    Run (Orderly Config.sample "a@b.c") (Sys.init .sample) s ∧ s.tasks.length = 3 ∧ s.Idle ∧
      ∃ order, (spec Config.sample).Path [] order (members (directory s.world)) ∧
        ∀ i t, s.tasks[i]? = some t → t.running = false →
          ∃ x o, t.call = x.call ∧ ⟨i, x, o⟩ ∈ order ∧ EndsWith t.prog o := by
  obtain ⟨s, h, hp⟩ := exists_run_of_replay (C := Orderly Config.sample "a@b.c")
    (s := (Sys.init .sample : State Config.sample Core.sample)) overlapping
    (fun s => s.tasks.length == 3 && decide s.Idle) (by decide)
  obtain ⟨hlen, hidle⟩ := Bool.and_eq_true_iff.1 hp
  obtain ⟨-, -, -, order, hpath, -, -, hends⟩ := signUps_sequential rfl
    (fun _ _ => List.cons_ne_nil _ _) (by decide) (fun _ hr => absurd hr List.not_mem_nil)
    (fun _ hr => absurd hr List.not_mem_nil) h
  exact ⟨s, h, eq_of_beq hlen, of_decide_eq_true hidle, order, hpath, hends⟩

end SignIn

end HelixServer
