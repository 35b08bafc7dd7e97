/-
Workflow.Proofs.Id — sources whose identifiers do not repeat.

`IdSource.Distinct` is what can be expected of fresh identifiers. Sources that
count have it (`distinct_numbered`).
-/
import Mathlib.Data.List.Nodup
import Workflow.Id

namespace Workflow.IdSource

/-- Of each kind, no identifier is drawn twice. -/
def Distinct (ids : IdSource) : Prop := ∀ e, Function.Injective (ids e)

/-- Identifiers drawn one after the other are distinct. -/
theorem Distinct.nodup {ids : IdSource} (h : ids.Distinct) (e : Entity) (start n : Nat) :
    ((List.range' start n).map (ids e)).Nodup :=
  List.Nodup.map (h e) List.nodup_range'

theorem toString_injective : Function.Injective fun n : Nat => toString n := by
  intro n m h
  have hdigits : Nat.toDigits 10 n = Nat.toDigits 10 m := by
    rw [← Nat.toList_repr, ← Nat.toList_repr]
    exact congrArg String.toList h
  calc n = Nat.ofDigitChars 10 (Nat.toDigits 10 n) 0 := Nat.ofDigitChars_ten_toDigits.symm
    _ = Nat.ofDigitChars 10 (Nat.toDigits 10 m) 0 := by rw [hdigits]
    _ = m := Nat.ofDigitChars_ten_toDigits

theorem distinct_numbered : numbered.Distinct := by
  intro e n m h
  have htext : e.stem ++ "-" ++ toString (n + 1) = e.stem ++ "-" ++ toString (m + 1) :=
    congrArg Id.text h
  exact Nat.succ.inj (toString_injective ((String.append_right_inj _).mp htext))

end Workflow.IdSource
