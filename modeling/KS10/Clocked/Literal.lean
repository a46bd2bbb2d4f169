import Mathlib.Algebra.GroupWithZero.Nat

/-!
# Literals of finite types

A literal of `Fin n` needs a proof that `n` is not zero.  With an instance of its own for
each `n` that is used, all modules use the same proof.
-/

namespace Clocked

instance neZero_four : NeZero 4 := ⟨by decide⟩

instance neZero_eight : NeZero 8 := ⟨by decide⟩

instance neZero_ten : NeZero 10 := ⟨by decide⟩

end Clocked
