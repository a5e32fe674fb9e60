import ParquetFooter.Proofs.Reader

/-! # Faults and breaches in one computation

An operation that checks data and is bound by a contract takes steps that can only be at fault, and
steps that can only be a breach. It succeeds when its steps do. It keeps the contract when no step
that it comes to is a breach.
-/

namespace ParquetFooter

variable {α β : Type}

/-- A step that may be at fault succeeds among others as it does alone. -/
@[simp] theorem liftM_fault_eq_ok {step : Except Fault α} {value : α} :
    (liftM step : Except Failure α) = .ok value ↔ step = .ok value := by
  cases step with
  | error fault => exact ⟨nofun, nofun⟩
  | ok result => exact ⟨fun same => by injection same with same; rw [same],
      fun same => by injection same with same; rw [same]; rfl⟩

/-- A step that is bound by a contract succeeds among others as it does alone. -/
@[simp] theorem liftM_breach_eq_ok {step : Except Breach α} {value : α} :
    (liftM step : Except Failure α) = .ok value ↔ step = .ok value := by
  cases step with
  | error breach => exact ⟨nofun, nofun⟩
  | ok result => exact ⟨fun same => by injection same with same; rw [same],
      fun same => by injection same with same; rw [same]; rfl⟩

/-- After a step that succeeds the next one goes on with its value. -/
theorem liftM_ok_bind (value : α) (next : α → Except Failure β) :
    ((liftM (.ok value : Except Fault α) : Except Failure α) >>= next) = next value := rfl

/-- A step that is at fault among others is at the same fault alone. -/
@[simp] theorem liftM_fault_eq_fault {step : Except Fault α} {cause : Fault} :
    (liftM step : Except Failure α) = .error (.fault cause) ↔ step = .error cause := by
  cases step with
  | error fault =>
      exact ⟨fun same => by injection same with same; injection same with same; rw [same],
        fun same => by injection same with same; rw [same]; rfl⟩
  | ok value => exact ⟨nofun, nofun⟩

/-- A step that is bound by a contract finds no fault. -/
theorem liftM_breach_ne_fault (step : Except Breach α) (cause : Fault) :
    (liftM step : Except Failure α) ≠ .error (.fault cause) := by
  cases step with
  | error breach =>
      intro same
      injection same with same
      exact nomatch same
  | ok value => exact nofun

/-- No contract is broken: there is a result, or the data are at fault. -/
def Within (outcome : Except Failure α) : Prop :=
  ∀ breach, outcome ≠ .error (.breach breach)

namespace Within

theorem ok (value : α) : Within (.ok value) := nofun

theorem fault (cause : Fault) : Within (.error (.fault cause) : Except Failure α) := nofun

/-- A step that may only be at fault breaks no contract. -/
theorem liftM_fault (step : Except Fault α) : Within (liftM step : Except Failure α) := by
  cases step with
  | error cause => exact fault cause
  | ok value => exact ok value

/-- What succeeds breaks no contract. -/
theorem of_eq_ok {outcome : Except Failure α} {value : α} (success : outcome = .ok value) :
    Within outcome := by
  rw [success]
  exact ok value

/-- Steps in a row break no contract when the first does not, nor the others where they are come
to. -/
theorem bind {first : Except Failure α} {next : α → Except Failure β} (head : Within first)
    (tail : ∀ value, first = .ok value → Within (next value)) : Within (first >>= next) := by
  cases first with
  | error failure =>
      intro breach same
      exact head breach (congrArg Except.error (Except.error.inj same))
  | ok value => exact tail value rfl

end Within

end ParquetFooter
