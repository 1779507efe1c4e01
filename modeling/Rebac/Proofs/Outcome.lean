/-!
# Successful outcomes

A computation that can fail succeeds exactly if each of its steps does.
-/

namespace Rebac

theorem map_eq_ok_iff {ε α β : Type} {outcome : Except ε α} {function : α → β}
    {result : β} :
    outcome.map function = .ok result ↔
      ∃ value, outcome = .ok value ∧ function value = result := by
  cases outcome with
  | error failure => simp [Except.map]
  | ok value => simp [Except.map]

theorem map_eq_error_iff {ε α β : Type} {outcome : Except ε α} {function : α → β}
    {failure : ε} :
    outcome.map function = .error failure ↔ outcome = .error failure := by
  cases outcome with
  | error other => simp [Except.map]
  | ok value => simp [Except.map]

theorem map_self {ε α : Type} (outcome : Except ε α) :
    outcome.map (fun value => value) = outcome := by
  cases outcome <;> rfl

@[simp] theorem mapError_ok {ε φ α : Type} (value : α) (function : ε → φ) :
    (Except.ok value).mapError function = .ok value := rfl

@[simp] theorem mapError_error {ε φ α : Type} (failure : ε) (function : ε → φ) :
    (Except.error failure : Except ε α).mapError function = .error (function failure) := rfl

theorem map_append_map {ε α : Type} (outcome : Except ε (List α)) (front back : List α) :
    (outcome.map (back ++ ·)).map (front ++ ·) = outcome.map (front ++ back ++ ·) := by
  cases outcome with
  | error failure => rfl
  | ok values => exact congrArg Except.ok (List.append_assoc front back values).symm

theorem bind_eq_ok_iff {ε α β : Type} {outcome : Except ε α}
    {next : α → Except ε β} {result : β} :
    (outcome >>= next) = .ok result ↔
      ∃ value, outcome = .ok value ∧ next value = .ok result := by
  cases outcome with
  | error failure => simp [bind, Except.bind]
  | ok value => simp [bind, Except.bind]

theorem map_bind {ε α β γ : Type} (outcome : Except ε α) (function : α → β)
    (next : β → Except ε γ) :
    (outcome.map function >>= next) = outcome >>= fun value => next (function value) := by
  cases outcome <;> rfl

instance decidableEqOutcome {ε α : Type} [DecidableEq ε] [DecidableEq α] :
    DecidableEq (Except ε α)
  | .ok left, .ok right => decidable_of_iff (left = right) (by simp)
  | .error left, .error right => decidable_of_iff (left = right) (by simp)
  | .ok _, .error _ => isFalse (by simp)
  | .error _, .ok _ => isFalse (by simp)

end Rebac
