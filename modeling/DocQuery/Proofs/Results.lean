/-!
# Results of steps that can fail

What a result of two steps, a mapped result, a result with a reworded failure and a guarded result
tell about the steps that they come from.
-/

set_option autoImplicit false

namespace DocQuery

variable {ε α β : Type}

/-- A mapped result comes from a result. -/
theorem exists_of_map_eq_ok {f : α → β} {x : Except ε α} {b : β} (h : x.map f = .ok b) :
    ∃ a, x = .ok a ∧ f a = b := by
  cases x with
  | error e => cases h
  | ok a => exact ⟨a, rfl, Except.ok.inj h⟩

theorem map_eq_error_iff {f : α → β} {x : Except ε α} {e : ε} :
    x.map f = .error e ↔ x = .error e := by
  cases x with
  | ok a => exact ⟨by rintro ⟨⟩, by rintro ⟨⟩⟩
  | error e' => exact ⟨by rintro ⟨⟩; rfl, by rintro ⟨⟩; rfl⟩

/-- Two steps have a result when each of them has. -/
theorem exists_of_bind_eq_ok {x : Except ε α} {f : α → Except ε β} {b : β}
    (h : (x >>= f) = .ok b) : ∃ a, x = .ok a ∧ f a = .ok b := by
  cases x with
  | error e => cases h
  | ok a => exact ⟨a, rfl, h⟩

/-- What has passed a guard. -/
theorem eq_ok_of_guard {guard : Prop} [Decidable guard] {e : ε} {result : Except ε α} {a : α}
    (h : (if guard then .error e else result) = .ok a) : result = .ok a := by
  split at h
  · cases h
  · exact h

theorem mapError_eq_ok_iff {f : ε → β} {result : Except ε α} {a : α} :
    result.mapError f = .ok a ↔ result = .ok a := by
  cases result with
  | ok b =>
      constructor
      · rintro ⟨⟩
        rfl
      · rintro ⟨⟩
        rfl
  | error e =>
      constructor
      · rintro ⟨⟩
      · rintro ⟨⟩

theorem mapError_eq_error_iff {f : ε → β} {result : Except ε α} {e : β} :
    result.mapError f = .error e ↔ ∃ cause, result = .error cause ∧ e = f cause := by
  cases result with
  | ok a =>
      constructor
      · rintro ⟨⟩
      · rintro ⟨cause, ⟨⟩, -⟩
  | error cause =>
      constructor
      · rintro ⟨⟩
        exact ⟨cause, rfl, rfl⟩
      · rintro ⟨cause, ⟨⟩, rfl⟩
        rfl

end DocQuery
