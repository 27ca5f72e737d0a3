import Mathlib.Logic.Basic
import Mathlib.Tactic.Common

/-!
# Programs that await calls

An `async` function is a piece of ordinary code cut at its `await`s.  `Prog S ε α` is the syntax
tree of such a function: it answers `a`, raises an error, or awaits a call `o` of the interface
`S` and goes on with the call's answer.  The tree is the program's own text, so the same program
can be run alone, beside others, or with calls that reject (`Async.Machine`).

## Main definitions

* `Sig` : an interface, its calls `Op` and the type `Res o` of the answer to each call.
* `Prog S ε α` : programs over `S`, a monad.
* `Prog.perform o` : await the call `o` and answer what it answers.
* `Prog.Uses N R p` : every call `p` can make is in `N` and every error it can raise is in `R`.
-/

namespace Async

/-- An interface: its calls, and the type of the answer to each call. -/
structure Sig where
  /-- The calls. -/
  Op : Type
  /-- The answers. -/
  Res : Op → Type

/-- A program that awaits calls of `S`, raises errors in `ε` and answers in `α`. -/
inductive Prog (S : Sig) (ε α : Type) : Type where
  | pure (a : α)
  | raise (e : ε)
  | call (o : S.Op) (k : S.Res o → Prog S ε α)

namespace Prog

variable {S : Sig} {ε α β γ : Type}

/-- Sequential composition. -/
def bind : Prog S ε α → (α → Prog S ε β) → Prog S ε β
  | .pure a, f => f a
  | .raise e, _ => .raise e
  | .call o k, f => .call o fun r => (k r).bind f

instance : Monad (Prog S ε) where
  pure := .pure
  bind := .bind

/-- Await the call `o`. -/
def perform (o : S.Op) : Prog S ε (S.Res o) := .call o .pure

@[simp] theorem pure_def (a : α) : (Pure.pure a : Prog S ε α) = .pure a := rfl

@[simp] theorem bind_def (p : Prog S ε α) (f : α → Prog S ε β) : p >>= f = p.bind f := rfl

@[simp] theorem pure_bind (a : α) (f : α → Prog S ε β) : (Prog.pure a).bind f = f a := rfl

@[simp] theorem raise_bind (e : ε) (f : α → Prog S ε β) :
    (Prog.raise e : Prog S ε α).bind f = .raise e := rfl

@[simp] theorem call_bind (o : S.Op) (k : S.Res o → Prog S ε α) (f : α → Prog S ε β) :
    (Prog.call o k).bind f = .call o fun r => (k r).bind f := rfl

@[simp] theorem perform_bind (o : S.Op) (f : S.Res o → Prog S ε β) :
    (perform o).bind f = .call o f := rfl

theorem bind_assoc (p : Prog S ε α) (f : α → Prog S ε β) (g : β → Prog S ε γ) :
    (p.bind f).bind g = p.bind fun a => (f a).bind g := by
  induction p with
  | pure a => rfl
  | raise e => rfl
  | call o k ih => simp only [call_bind]; congr 1; funext r; exact ih r

@[simp] theorem map_def (f : α → β) (p : Prog S ε α) :
    f <$> p = p.bind fun a => .pure (f a) := rfl

/-- The program still has a call to make. -/
def running : Prog S ε α → Bool
  | .call _ _ => true
  | _ => false

/-- The call the program makes next. -/
def head : Prog S ε α → Option S.Op
  | .call o _ => some o
  | _ => none

/-! ### What a program may call -/

/-- Every call `p` can make satisfies `N`, and every error it can raise satisfies `R`. -/
def Uses (N : S.Op → Prop) (R : ε → Prop) : Prog S ε α → Prop
  | .pure _ => True
  | .raise e => R e
  | .call o k => N o ∧ ∀ r, (k r).Uses N R

variable {N N' : S.Op → Prop} {R R' : ε → Prop}

@[simp] theorem uses_pure (a : α) : (Prog.pure a : Prog S ε α).Uses N R := trivial

@[simp] theorem uses_raise {e : ε} : (Prog.raise e : Prog S ε α).Uses N R ↔ R e := Iff.rfl

@[simp] theorem uses_call {o : S.Op} {k : S.Res o → Prog S ε α} :
    (Prog.call o k).Uses N R ↔ N o ∧ ∀ r, (k r).Uses N R := Iff.rfl

@[simp] theorem uses_perform {o : S.Op} :
    (perform o : Prog S ε (S.Res o)).Uses N R ↔ N o := by
  simp [perform]

theorem Uses.bind {p : Prog S ε α} {f : α → Prog S ε β} (hp : p.Uses N R)
    (hf : ∀ a, (f a).Uses N R) : (p.bind f).Uses N R := by
  induction p with
  | pure a => exact hf a
  | raise e => exact hp
  | call o k ih => exact ⟨hp.1, fun r => ih r (hp.2 r)⟩

theorem Uses.mono {p : Prog S ε α} (h : p.Uses N R) (hN : ∀ o, N o → N' o)
    (hR : ∀ e, R e → R' e) : p.Uses N' R' := by
  induction p with
  | pure a => trivial
  | raise e => exact hR e h
  | call o k ih => exact ⟨hN o h.1, fun r => ih r (h.2 r)⟩

theorem uses_true (p : Prog S ε α) : p.Uses (fun _ => True) fun _ => True := by
  induction p with
  | pure a => trivial
  | raise e => trivial
  | call o k ih => exact ⟨trivial, ih⟩

end Prog

end Async
