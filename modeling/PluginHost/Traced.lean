import PluginHost.Attribute
import PluginHost.Log
import PluginHost.ResolutionContext

/-!
# Traced computations

What the library does besides computing: it logs, it calls loaders, and it may fail.  A
`Traced` value holds the outcome together with everything that was logged and every call of a
loader on the way, also when the outcome is a failure.
-/

namespace PluginHost

/-- A call of a loader. -/
structure LoaderCall where
  loaderId : String
  artifactId : String
  context : ResolutionContext
  attributes : Attributes

/-- An outcome with the log and the loader calls on the way to it. -/
structure Traced (α : Type) where
  log : List LogEntry
  calls : List LoaderCall
  outcome : Except Failure α

namespace Traced

variable {α β : Type}

/-- The value without a trace. -/
def pure (a : α) : Traced α := ⟨[], [], .ok a⟩

/-- A failure without a trace. -/
def fail (failure : Failure) : Traced α := ⟨[], [], .error failure⟩

/-- What `next` does with a value, behind the trace of the value; a failure is passed on. -/
def bind (x : Traced α) (next : α → Traced β) : Traced β :=
  match x.outcome with
  | .ok a => ⟨x.log ++ (next a).log, x.calls ++ (next a).calls, (next a).outcome⟩
  | .error failure => ⟨x.log, x.calls, .error failure⟩

instance : Monad Traced where
  pure := pure
  bind := bind

/-- An outcome without a trace. -/
def ofExcept (outcome : Except Failure α) : Traced α := ⟨[], [], outcome⟩

/-- Logs a message. -/
def emit (level : LogLevel) (message : String) : Traced Unit := ⟨[⟨level, message⟩], [], .ok ()⟩

/-- Records a call of a loader. -/
def record (call : LoaderCall) : Traced Unit := ⟨[], [call], .ok ()⟩

/-- The same trace with the failure, if there is one, in other terms. -/
def mapFailure (f : Failure → Failure) (x : Traced α) : Traced α :=
  { x with outcome := match x.outcome with
      | .ok a => .ok a
      | .error failure => .error (f failure) }

/-- The same trace with the outcome as a value. -/
def attempt (x : Traced α) : Traced (Except Failure α) := { x with outcome := .ok x.outcome }

/-- What an operation on a state leaves behind: the state that it gives or, if it fails, the one
that there was before. -/
def leaves (before : α) (x : Traced α) : α :=
  match x.outcome with
  | .ok after => after
  | .error _ => before

/-- The same outcome and log without calls. -/
def withoutCalls (x : Traced α) : Traced α := { x with calls := [] }

/-! ### The monad -/

theorem bind_of_ok {x : Traced α} {a : α} (next : α → Traced β) (h : x.outcome = .ok a) :
    x >>= next =
      ⟨x.log ++ (next a).log, x.calls ++ (next a).calls, (next a).outcome⟩ := by
  show bind x next = _
  simp only [bind, h]

theorem bind_of_error {x : Traced α} {failure : Failure} (next : α → Traced β)
    (h : x.outcome = .error failure) : x >>= next = ⟨x.log, x.calls, .error failure⟩ := by
  show bind x next = _
  simp only [bind, h]

/-- A sequence succeeds exactly if both of its parts do. -/
theorem outcome_bind_eq_ok_iff {x : Traced α} {next : α → Traced β} {b : β} :
    (x >>= next).outcome = .ok b ↔ ∃ a, x.outcome = .ok a ∧ (next a).outcome = .ok b := by
  cases h : x.outcome with
  | ok a => simp [bind_of_ok next h]
  | error failure => simp [bind_of_error next h]

/-- A sequence fails exactly if its first part does, or its second part behind the first. -/
theorem outcome_bind_eq_error_iff {x : Traced α} {next : α → Traced β} {failure : Failure} :
    (x >>= next).outcome = .error failure ↔
      x.outcome = .error failure ∨ ∃ a, x.outcome = .ok a ∧ (next a).outcome = .error failure := by
  cases h : x.outcome with
  | ok a => simp [bind_of_ok next h]
  | error failure => simp [bind_of_error next h]

theorem calls_bind_of_ok {x : Traced α} {a : α} (next : α → Traced β) (h : x.outcome = .ok a) :
    (x >>= next).calls = x.calls ++ (next a).calls := by
  rw [bind_of_ok next h]

theorem outcome_bind_of_ok {x : Traced α} {a : α} (next : α → Traced β)
    (h : x.outcome = .ok a) : (x >>= next).outcome = (next a).outcome := by
  rw [bind_of_ok next h]

theorem outcome_bind_of_error {x : Traced α} {failure : Failure} (next : α → Traced β)
    (h : x.outcome = .error failure) : (x >>= next).outcome = .error failure := by
  rw [bind_of_error next h]

instance : LawfulMonad Traced :=
  LawfulMonad.mk' Traced
    (fun x => by
      show bind x pure = x
      obtain ⟨log, calls, outcome⟩ := x
      cases outcome <;> simp [bind, pure])
    (fun a next => by
      show bind (pure a) next = next a
      simp [bind, pure])
    (fun x f g => by
      show bind (bind x f) g = bind x fun a => bind (f a) g
      obtain ⟨log, calls, outcome⟩ := x
      cases outcome with
      | error failure => simp [bind]
      | ok a =>
        cases h : (f a).outcome <;> simp [bind, h])

/-! ### The other operations -/

@[simp]
theorem outcome_pure (a : α) : (Pure.pure a : Traced α).outcome = .ok a := rfl

@[simp]
theorem calls_pure (a : α) : (Pure.pure a : Traced α).calls = [] := rfl

@[simp]
theorem outcome_fail (failure : Failure) : (fail failure : Traced α).outcome = .error failure :=
  rfl

@[simp]
theorem outcome_ofExcept (outcome : Except Failure α) : (ofExcept outcome).outcome = outcome := rfl

@[simp]
theorem calls_ofExcept (outcome : Except Failure α) : (ofExcept outcome).calls = [] := rfl

/-- An outcome that is a value has nothing else to it. -/
theorem ofExcept_ok (a : α) : ofExcept (.ok a) = (Pure.pure a : Traced α) := rfl

@[simp]
theorem outcome_emit (level : LogLevel) (message : String) :
    (emit level message).outcome = .ok () := rfl

@[simp]
theorem calls_emit (level : LogLevel) (message : String) : (emit level message).calls = [] := rfl

@[simp]
theorem outcome_record (call : LoaderCall) : (record call).outcome = .ok () := rfl

@[simp]
theorem calls_record (call : LoaderCall) : (record call).calls = [call] := rfl

@[simp]
theorem outcome_attempt (x : Traced α) : x.attempt.outcome = .ok x.outcome := rfl

@[simp]
theorem outcome_withoutCalls (x : Traced α) : x.withoutCalls.outcome = x.outcome := rfl

@[simp]
theorem calls_withoutCalls (x : Traced α) : x.withoutCalls.calls = [] := rfl

@[simp]
theorem calls_mapFailure (f : Failure → Failure) (x : Traced α) :
    (x.mapFailure f).calls = x.calls := rfl

/-- Putting failures in other terms neither adds nor removes successes. -/
theorem outcome_mapFailure_eq_ok_iff {f : Failure → Failure} {x : Traced α} {a : α} :
    (x.mapFailure f).outcome = .ok a ↔ x.outcome = .ok a := by
  unfold mapFailure
  cases x.outcome <;> simp

theorem leaves_of_ok {before after : α} {x : Traced α} (h : x.outcome = .ok after) :
    x.leaves before = after := by
  simp only [leaves, h]

theorem leaves_of_error {before : α} {x : Traced α} {failure : Failure}
    (h : x.outcome = .error failure) : x.leaves before = before := by
  simp only [leaves, h]

theorem outcome_mapFailure_of_error {f : Failure → Failure} {x : Traced α} {failure : Failure}
    (h : x.outcome = .error failure) : (x.mapFailure f).outcome = .error (f failure) := by
  simp only [mapFailure, h]

end Traced

end PluginHost
