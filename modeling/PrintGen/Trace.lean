import PrintGen.Fault

/-!
# The trace of a run

Every part of the generator reports what it does as records with a level. A run returns its records
in the order in which they were made, also when it stops at a fault.
-/

namespace PrintGen

/-- How important a record is. -/
inductive Level where
  | debug
  | info
  | warning
deriving DecidableEq, Repr

def Level.name : Level → String
  | debug => "DEBUG"
  | info => "INFO"
  | warning => "WARNING"

/-- The rank of a level: more important ones are higher. -/
def Level.rank : Level → Nat
  | debug => 0
  | info => 1
  | warning => 2

/-- The parts that report records. -/
inductive Component where
  | parsing
  | declaring
  | binding
  | resolving
  | registering
  | generating
  | writing
deriving DecidableEq, Repr

def Component.name : Component → String
  | parsing => "printable_fields.pipeline.syntax.parser"
  | declaring => "printable_fields.pipeline.semantic.compilation"
  | binding => "printable_fields.pipeline.semantic.binder"
  | resolving => "printable_fields.pipeline.semantic.resolver"
  | registering => "printable_fields.pipeline.sink"
  | generating => "printable_fields.pipeline.generator"
  | writing => "printable_fields.pipeline.writer"

/-- A record: who reports what, and how important it is. -/
structure Record where
  level : Level
  component : Component
  message : String
deriving DecidableEq, Repr

def Record.line (r : Record) : String :=
  r.level.name ++ " " ++ r.component.name ++ ": " ++ r.message

/-- The records of a run in order. -/
abbrev Trace := List Record

/-- The lines of the records of at least the given level. -/
def Trace.linesFrom (least : Level) (trace : Trace) : List String :=
  (trace.filter fun r => least.rank ≤ r.level.rank).map Record.line

/-- A computation that reports records and may stop at a fault; what was reported stays. -/
abbrev Traced := EStateM Fault Trace

def report (level : Level) (component : Component) (message : String) : Traced Unit :=
  modify (· ++ [⟨level, component, message⟩])

def Traced.ofExcept {α : Type} : Except Fault α → Traced α
  | .ok a => pure a
  | .error fault => throw fault

end PrintGen
