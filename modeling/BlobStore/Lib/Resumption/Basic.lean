import Mathlib.Logic.Function.Basic
import Mathlib.Data.List.Basic

/-!
# Resumptions

A process is a tree of requests: it has either come to an outcome or it issues a request `e` and
continues with the response. The tree says nothing about what a request does; that is the part of
a handler `exec`, which answers one request and moves the shared state, atomically.

The same tree is run in two ways: alone and to its end (`run`), or interleaved with other processes
and up to any point (`Resumption.Interleaving`).
-/

namespace Resumption

/-- A process issuing requests `e : E`, answered in `R e`, that fails in `ε` or returns in `α`. -/
inductive Proc (E : Type) (R : E → Type) (ε α : Type) where
  | ret (r : Except ε α)
  | act (e : E) (k : R e → Proc E R ε α)

variable {E : Type} {R : E → Type} {ε ε' α β σ : Type}

namespace Proc

/-- Sequencing; an error skips what follows. -/
def bind : Proc E R ε α → (α → Proc E R ε β) → Proc E R ε β
  | .ret (.ok a), f    => f a
  | .ret (.error x), _ => .ret (.error x)
  | .act e k, f        => .act e fun r => (k r).bind f

instance : Monad (Proc E R ε) where
  pure a := .ret (.ok a)
  bind   := Proc.bind

/-- One request, whose response is the result. -/
def perform (e : E) : Proc E R ε (R e) := .act e fun r => .ret (.ok r)

/-- Stop with an error. -/
def fail (x : ε) : Proc E R ε α := .ret (.error x)

/-- Stop or go on according to a value already at hand. -/
def ofExcept (r : Except ε α) : Proc E R ε α := .ret r

/-- Translate the error of a process. -/
def mapErr (f : ε → ε') : Proc E R ε α → Proc E R ε' α
  | .ret (.ok a)    => .ret (.ok a)
  | .ret (.error x) => .ret (.error (f x))
  | .act e k        => .act e fun r => (k r).mapErr f

/-- Run a process for its effects and drop its outcome, errors included. -/
def ignore : Proc E R ε α → Proc E R ε' Unit
  | .ret _   => .ret (.ok ())
  | .act e k => .act e fun r => (k r).ignore

/-- The outcome of a process that is at its end. -/
def outcome? : Proc E R ε α → Option (Except ε α)
  | .ret r   => some r
  | .act _ _ => none

@[simp] lemma pure_bind (a : α) (f : α → Proc E R ε β) : (pure a : Proc E R ε α) >>= f = f a := rfl

@[simp] lemma fail_bind (x : ε) (f : α → Proc E R ε β) :
    (fail x : Proc E R ε α) >>= f = fail x := rfl

@[simp] lemma ofExcept_ok_bind (a : α) (f : α → Proc E R ε β) :
    (ofExcept (.ok a) : Proc E R ε α) >>= f = f a := rfl

@[simp] lemma ofExcept_error_bind (x : ε) (f : α → Proc E R ε β) :
    (ofExcept (.error x) : Proc E R ε α) >>= f = fail x := rfl

/-! ### Running to the end -/

variable (exec : ∀ e : E, σ → R e × σ)

/-- Run a process alone, to its end. -/
def run : Proc E R ε α → σ → Except ε α × σ
  | .ret r, s   => (r, s)
  | .act e k, s => run (k (exec e s).1) (exec e s).2

@[simp] lemma run_ret (r : Except ε α) (s : σ) : run exec (.ret r : Proc E R ε α) s = (r, s) := rfl

@[simp] lemma run_pure (a : α) (s : σ) : run exec (pure a : Proc E R ε α) s = (.ok a, s) := rfl

@[simp] lemma run_fail (x : ε) (s : σ) : run exec (fail x : Proc E R ε α) s = (.error x, s) := rfl

@[simp] lemma run_ofExcept (r : Except ε α) (s : σ) :
    run exec (ofExcept r : Proc E R ε α) s = (r, s) := rfl

@[simp] lemma run_perform (e : E) (s : σ) :
    run exec (perform e : Proc E R ε (R e)) s = (.ok (exec e s).1, (exec e s).2) := rfl

lemma run_bind (p : Proc E R ε α) (f : α → Proc E R ε β) (s : σ) :
    run exec (p >>= f) s = match run exec p s with
      | (.ok a, s')    => run exec (f a) s'
      | (.error x, s') => (.error x, s') := by
  induction p generalizing s with
  | ret r => cases r <;> rfl
  | act e k ih => exact ih _ _

lemma run_bind_ok {p : Proc E R ε α} {s s' : σ} {a : α} (h : run exec p s = (.ok a, s'))
    (f : α → Proc E R ε β) : run exec (p >>= f) s = run exec (f a) s' := by
  rw [run_bind, h]

lemma run_bind_error {p : Proc E R ε α} {s s' : σ} {x : ε} (h : run exec p s = (.error x, s'))
    (f : α → Proc E R ε β) : run exec (p >>= f) s = (.error x, s') := by
  rw [run_bind, h]

/-- A sequence that succeeds has succeeded in its first part. -/
lemma run_bind_ok_inv {p : Proc E R ε α} {f : α → Proc E R ε β} {s s' : σ} {b : β}
    (h : run exec (p >>= f) s = (.ok b, s')) :
    ∃ a s₁, run exec p s = (.ok a, s₁) ∧ run exec (f a) s₁ = (.ok b, s') := by
  rw [run_bind] at h
  rcases hp : run exec p s with ⟨x | a, s₁⟩
  · rw [hp] at h
    cases h
  · rw [hp] at h
    exact ⟨a, s₁, rfl, h⟩

lemma run_bind_pure {p : Proc E R ε α} {s s' : σ} {r : Except ε α} (h : run exec p s = (r, s'))
    (f : α → β) : run exec (p >>= fun a => pure (f a)) s = (r.map f, s') := by
  rw [run_bind, h]
  cases r <;> rfl

@[simp] lemma run_perform_bind (e : E) (f : R e → Proc E R ε β) (s : σ) :
    run exec (perform e >>= f) s = run exec (f (exec e s).1) (exec e s).2 := rfl

lemma run_mapErr (f : ε → ε') (p : Proc E R ε α) (s : σ) :
    run exec (p.mapErr f) s = match run exec p s with
      | (.ok a, s')    => (.ok a, s')
      | (.error x, s') => (.error (f x), s') := by
  induction p generalizing s with
  | ret r => cases r <;> rfl
  | act e k ih => exact ih _ _

@[simp] lemma run_ignore (p : Proc E R ε α) (s : σ) :
    run exec (p.ignore : Proc E R ε' Unit) s = (.ok (), (run exec p s).2) := by
  induction p generalizing s with
  | ret r => rfl
  | act e k ih => exact ih _ _

end Proc
end Resumption
