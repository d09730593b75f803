/-!
# Log lines

Reading an object and checking the files it lists leave a trace of lines for the operator.  The
functions that do so are still functions: they return their lines beside their value, in the order
in which they would be written.
-/

set_option autoImplicit false

namespace Rpki

/-- How much attention a line wants. -/
inductive Level
  | warning
  | debug
deriving DecidableEq

/-- The usual name of a level. -/
def Level.name : Level → String
  | warning => "WARN"
  | debug => "DEBUG"

/-- A line of the log. -/
structure LogEntry where
  level : Level
  text : String
deriving DecidableEq

/-- A value and the lines written on the way to it. -/
structure Logged (α : Type) where
  value : α
  log : List LogEntry

/-- Changes the value and keeps the lines. -/
def Logged.map {α β : Type} (f : α → β) (l : Logged α) : Logged β := ⟨f l.value, l.log⟩

end Rpki
