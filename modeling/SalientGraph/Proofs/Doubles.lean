import Mathlib
import SalientGraph.Relevance.Basic

/-!
# Doubles that are stored and taken up again

A stored double is a double by its bits, so a calculation takes up what another one has
stored. A score differs from itself under no circumstances: the difference of a double
to itself is nothing, or no number at all, and neither exceeds a threshold.
-/

namespace SalientGraph

@[simp] theorem Double.toFloat_ofFloat (x : Float) : (Double.ofFloat x).toFloat = x :=
  Float.ofBits_toBits x

open Float.Model (UnpackedFloat Format)

/-- An infinity less itself is no number, as is what is none, and anything else less itself is
zero. -/
theorem unpacked_sub_self (spec : Format) (u : UnpackedFloat) :
    u.sub spec u = .notANumber ∨ u.sub spec u = .zero .positive := by
  cases u with
  | notANumber => exact .inl rfl
  | infinity s => cases s <;> exact .inl rfl
  | zero s => cases s <;> exact .inr rfl
  | finite s m e hm =>
      right
      simp only [UnpackedFloat.sub, Int.sub_self]
      rfl

/-- No score differs from itself. -/
theorem Relevance.differs_self (x : Float) : differs x x = false := by
  have hzero : x - x = ⟨Float.Model.pack .notANumber⟩ ∨
      x - x = ⟨Float.Model.pack (.zero .positive)⟩ := by
    show (⟨Float.Model.pack (UnpackedFloat.sub _ _ _)⟩ : Float) = _ ∨
      (⟨Float.Model.pack (UnpackedFloat.sub _ _ _)⟩ : Float) = _
    rcases unpacked_sub_self Format.binary64 x.toModel.unpack with h | h
    · exact .inl (by rw [h])
    · exact .inr (by rw [h])
  unfold differs
  rcases hzero with h | h
  · rw [h]
    decide +kernel
  · rw [h]
    decide +kernel

end SalientGraph
