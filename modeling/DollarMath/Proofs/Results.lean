import Mathlib.Data.List.Basic

/-!
What it takes for a computation that may fail to give a result.
-/

namespace DollarMath

variable {α β ε ζ : Type} {read : Except ε α}

theorem exists_eq_ok (isOk : read.isOk = true) : ∃ item, read = .ok item := by
  cases read with
  | ok item => exact ⟨item, rfl⟩
  | error => cases isOk

theorem eq_ok_of_toOption {item : α} (found : read.toOption = some item) : read = .ok item := by
  cases read with
  | ok other => rw [Option.some.inj found]
  | error => cases found

theorem map_eq_ok {make : α → β} {result : β} :
    read.map make = .ok result ↔ ∃ item, read = .ok item ∧ make item = result := by
  cases read <;> simp [Except.map]

theorem mapError_ok (describe : ε → ζ) (item : α) :
    (Except.ok item).mapError describe = .ok item := rfl

theorem mapError_eq_ok {describe : ε → ζ} {result : α} :
    read.mapError describe = .ok result ↔ read = .ok result := by
  cases read with
  | ok item => rw [mapError_ok, Except.ok.injEq, Except.ok.injEq]
  | error error => exact iff_of_false nofun nofun

theorem bind_eq_ok {next : α → Except ε β} {result : β} :
    read.bind next = .ok result ↔ ∃ item, read = .ok item ∧ next item = .ok result := by
  cases read <;> simp [Except.bind]

theorem mapM_eq_ok {read : α → Except ε β} {accepts : α → Prop} {make : α → β}
    (step : ∀ item result, read item = .ok result ↔ accepts item ∧ make item = result)
    {items : List α} {results : List β} :
    items.mapM read = .ok results ↔ (∀ item ∈ items, accepts item) ∧ items.map make = results := by
  induction items generalizing results with
  | nil => simp [pure, Except.pure]
  | cons item items ih =>
      rw [List.mapM_cons, List.forall_mem_cons, List.map_cons]
      change (read item).bind (fun first => (items.mapM read).bind fun rest => .ok (first :: rest)) =
        .ok results ↔ _
      simp only [bind_eq_ok, step, ih, Except.ok.injEq]
      constructor
      · rintro ⟨_, ⟨own, rfl⟩, _, ⟨others, rfl⟩, rfl⟩
        exact ⟨⟨own, others⟩, rfl⟩
      · rintro ⟨⟨own, others⟩, rfl⟩
        exact ⟨_, ⟨own, rfl⟩, _, ⟨others, rfl⟩, rfl⟩

end DollarMath
