/-!
# Log

What a run reports on the side. A step returns its entries with its outcome, so that a failure keeps
what was reported before it.
-/

namespace EntityScript

inductive LogLevel
  | warn
  | info
  | debug
  deriving Repr, DecidableEq

/-- The part of the program that an entry comes from. -/
inductive LogSource
  | command
  | building
  | types
  | files
  deriving Repr, DecidableEq

structure LogEntry where
  level : LogLevel
  source : LogSource
  message : String
  deriving Repr, DecidableEq

/-- An outcome with the entries that led to it. -/
structure Logged (ε α : Type) where
  log : List LogEntry
  outcome : Except ε α

namespace Logged

variable {ε α β : Type}

def pure (a : α) : Logged ε α :=
  ⟨[], .ok a⟩

/-- The second step runs after the first succeeded. -/
def bind (x : Logged ε α) (f : α → Logged ε β) : Logged ε β :=
  match x.outcome with
  | .ok a => ⟨x.log ++ (f a).log, (f a).outcome⟩
  | .error e => ⟨x.log, .error e⟩

instance : Monad (Logged ε) where
  pure := Logged.pure
  bind := Logged.bind

/-- Entries and nothing else. -/
def tellAll (entries : List LogEntry) : Logged ε Unit :=
  ⟨entries, .ok ()⟩

/-- One entry. -/
def tell (level : LogLevel) (source : LogSource) (message : String) : Logged ε Unit :=
  tellAll [⟨level, source, message⟩]

/-- An outcome without entries. -/
def ofExcept (outcome : Except ε α) : Logged ε α :=
  ⟨[], outcome⟩

/-- The same with another error. -/
def mapError {ε' : Type} (f : ε → ε') (x : Logged ε α) : Logged ε' α :=
  ⟨x.log, x.outcome.mapError f⟩

@[simp] theorem outcome_pure (a : α) : (Pure.pure a : Logged ε α).outcome = .ok a := rfl

@[simp] theorem outcome_bind (x : Logged ε α) (f : α → Logged ε β) :
    (x >>= f).outcome = x.outcome >>= fun a => (f a).outcome := by
  show (Logged.bind x f).outcome = _
  cases h : x.outcome <;> simp [Logged.bind, h, Bind.bind, Except.bind]

@[simp] theorem outcome_tellAll (entries : List LogEntry) :
    (tellAll entries : Logged ε Unit).outcome = .ok () := rfl

@[simp] theorem outcome_tell (level : LogLevel) (source : LogSource) (message : String) :
    (tell level source message : Logged ε Unit).outcome = .ok () := rfl

@[simp] theorem outcome_ofExcept (outcome : Except ε α) : (ofExcept outcome).outcome = outcome := rfl

@[simp] theorem outcome_mapError {ε' : Type} (f : ε → ε') (x : Logged ε α) :
    (x.mapError f).outcome = x.outcome.mapError f := rfl

end Logged

end EntityScript
