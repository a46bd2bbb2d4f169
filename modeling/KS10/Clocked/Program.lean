import Mathlib.Logic.Basic

/-!
# Programs on the registers of a device

A processor reaches a device by reading and writing the registers `ρ` of the device,
with words `δ`.  A program is the tree of its accesses (`Prog`): what it does after a
read depends on the word read.  The device takes the accesses one by one, so that other
parties may act between any two of them.

`Prog.Guarded r P last p` says that every word that `p` writes to register `r` is
related by `P` to the word last read from it, which is `last` at the start.
-/

namespace Clocked

variable {ρ δ : Type*} {α β : Type}

inductive Prog (ρ δ : Type*) (α : Type) where
  | ret (a : α)
  | read (r : ρ) (k : δ → Prog ρ δ α)
  | write (r : ρ) (v : δ) (k : Prog ρ δ α)

namespace Prog

def bind : Prog ρ δ α → (α → Prog ρ δ β) → Prog ρ δ β
  | .ret a, f => f a
  | .read r k, f => .read r fun d => (k d).bind f
  | .write r v k, f => .write r v (k.bind f)

instance : Monad (Prog ρ δ) where
  pure := .ret
  bind := bind

@[simp] theorem pure_eq (a : α) : (pure a : Prog ρ δ α) = .ret a := rfl

@[simp] theorem ret_bind (a : α) (f : α → Prog ρ δ β) : (.ret a : Prog ρ δ α) >>= f = f a := rfl

@[simp] theorem read_bind (r : ρ) (k : δ → Prog ρ δ α) (f : α → Prog ρ δ β) :
    (.read r k : Prog ρ δ α) >>= f = .read r fun d => k d >>= f := rfl

@[simp] theorem write_bind (r : ρ) (v : δ) (k : Prog ρ δ α) (f : α → Prog ρ δ β) :
    (.write r v k : Prog ρ δ α) >>= f = .write r v (k >>= f) := rfl

theorem bind_bind {γ : Type} (p : Prog ρ δ α) (f : α → Prog ρ δ β) (g : β → Prog ρ δ γ) :
    (p >>= f) >>= g = p >>= fun a => f a >>= g := by
  induction p with
  | ret a => rfl
  | read r k ih => exact congrArg (Prog.read r) (funext ih)
  | write r v k ih => exact congrArg (Prog.write r v) ih

/-- The word last read from `r`, after a read of `r'`. -/
def track [DecidableEq ρ] (r r' : ρ) (d : δ) (last : Option δ) : Option δ :=
  if r' = r then some d else last

/-- Every word written to `r` is related to the word last read from it. -/
def Guarded [DecidableEq ρ] (r : ρ) (P : Option δ → δ → Prop) : Option δ → Prog ρ δ α → Prop
  | _, .ret _ => True
  | last, .read r' k => ∀ d, Guarded r P (track r r' d last) (k d)
  | last, .write r' v k => (r' = r → P last v) ∧ Guarded r P last k

namespace Guarded

variable [DecidableEq ρ] {r : ρ} {P : Option δ → δ → Prop} {last : Option δ}

/-- A program after another that may have read the register. -/
theorem bind {p : Prog ρ δ α} {f : α → Prog ρ δ β} (hp : Guarded r P last p)
    (hf : ∀ last a, Guarded r P last (f a)) : Guarded r P last (p >>= f) := by
  induction p generalizing last with
  | ret a => exact hf last a
  | read r' k ih => exact fun d => ih d (hp d)
  | write r' v k ih => exact ⟨hp.1, ih hp.2⟩

end Guarded

end Prog

end Clocked
