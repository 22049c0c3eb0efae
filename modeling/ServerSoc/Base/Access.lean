/-
Programs over the registers of one device.

A program reads and writes registers by number.  It can run on the device itself or on a
larger system in which the device is reached by some path; `run_embed` says that both runs
agree as long as single reads and writes do.
-/
import Mathlib.Logic.Function.Basic

namespace ServerSoc.Base

inductive Access (α : Type) where
  | done (a : α)
  | read (reg : Nat) (k : Nat → Access α)
  | write (reg data : Nat) (k : Access α)

structure Port (σ : Type) where
  read : σ → Nat → Nat
  write : σ → Nat → Nat → σ

namespace Access

variable {α β σ τ : Type} {p : Port σ}

def bind : Access α → (α → Access β) → Access β
  | .done a, f => f a
  | .read reg k, f => .read reg (fun v => (k v).bind f)
  | .write reg data k, f => .write reg data (k.bind f)

instance : Monad Access where
  pure := .done
  bind := Access.bind

def run (p : Port σ) : Access α → σ → α × σ
  | .done a, s => (a, s)
  | .read reg k, s => run p (k (p.read s reg)) s
  | .write reg data k, s => run p k (p.write s reg data)

@[simp] theorem run_pure (p : Port σ) (a : α) (s : σ) : run p (pure a) s = (a, s) := rfl

@[simp] theorem run_done (p : Port σ) (a : α) (s : σ) : run p (.done a) s = (a, s) := rfl

@[simp] theorem run_read (p : Port σ) (reg : Nat) (k : Nat → Access α) (s : σ) :
    run p (.read reg k) s = run p (k (p.read s reg)) s := rfl

@[simp] theorem run_write (p : Port σ) (reg data : Nat) (k : Access α) (s : σ) :
    run p (.write reg data k) s = run p k (p.write s reg data) := rfl

@[simp] theorem run_bind (p : Port σ) (x : Access α) (f : α → Access β) (s : σ) :
    run p (x >>= f) s = run p (f (run p x s).1) (run p x s).2 := by
  induction x generalizing s with
  | done a => rfl
  | read reg k ih => exact ih (p.read s reg) s
  | write reg data k ih => exact ih (p.write s reg data)

/-- A device that is reached through a larger system runs a program as it does alone. -/
theorem run_embed {q : Port τ} {e : τ → σ} (hread : ∀ t reg, p.read (e t) reg = q.read t reg)
    (hwrite : ∀ t reg data, p.write (e t) reg data = e (q.write t reg data)) (x : Access α)
    (t : τ) : run p x (e t) = ((run q x t).1, e (run q x t).2) := by
  induction x generalizing t with
  | done a => rfl
  | read reg k ih => rw [run_read, run_read, hread, ih]
  | write reg data k ih => rw [run_write, run_write, hwrite, ih]

theorem run_invariant {P : σ → Prop} (hwrite : ∀ s reg data, P s → P (p.write s reg data))
    (x : Access α) {s : σ} (h : P s) : P (run p x s).2 := by
  induction x generalizing s with
  | done a => exact h
  | read reg k ih => exact ih _ h
  | write reg data k ih => exact ih (hwrite s reg data h)

end Access
end ServerSoc.Base
