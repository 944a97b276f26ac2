import Mathlib.Data.List.Perm.Basic

/-! Checksums of a list of parts. A part is folded byte by byte with a step that loses neither the state
    nor the byte; the parts are combined by an operation that can be undone. Such a checksum sees every
    change of one byte of one part. -/

namespace Zith.Lib

section
variable {σ β : Type} {step : σ → β → σ}

/-- What a different state is left to differ in. -/
theorem foldl_state_ne (hstate : ∀ b, Function.Injective (step · b)) : ∀ (l : List β) {s s' : σ},
    s ≠ s' → l.foldl step s ≠ l.foldl step s'
  | [], _, _, h => h
  | b :: l, _, _, h => foldl_state_ne hstate l fun heq => h (hstate b heq)

/-- A fold sees a change of one element, whatever comes before and after it. -/
theorem foldl_element_ne (hstate : ∀ b, Function.Injective (step · b))
    (helement : ∀ s, Function.Injective (step s)) {a b : β} (h : a ≠ b) (s : σ) (p q : List β) :
    (p ++ a :: q).foldl step s ≠ (p ++ b :: q).foldl step s := by
  rw [List.foldl_append, List.foldl_append]
  exact foldl_state_ne hstate q fun heq => h (helement _ heq)

end

section
variable {γ : Type} (combine : γ → γ → γ) (zero : γ)

/-- The checksums of some parts, combined. -/
def combineAll (l : List γ) : γ := l.foldr combine zero

variable {combine}

/-- A change of one of the combined values is seen. -/
theorem combineAll_ne (hleft : ∀ a, Function.Injective (combine a))
    (hright : ∀ b, Function.Injective (combine · b)) {a b : γ} (h : a ≠ b) (q : List γ) :
    ∀ p : List γ, combineAll combine zero (p ++ a :: q) ≠ combineAll combine zero (p ++ b :: q)
  | [] => fun heq => h (hright _ heq)
  | c :: p => fun heq => combineAll_ne hleft hright h q p (hleft c heq)

/-- The order of the values does not matter. -/
theorem combineAll_perm [LeftCommutative combine] {l l' : List γ} (h : l.Perm l') :
    combineAll combine zero l = combineAll combine zero l' := h.foldr_eq zero

end

end Zith.Lib
