/-!
# Messages about a run

What a run has to say besides its result: progress, and warnings about what it could
not do.
-/

namespace Lintel

inductive LogLevel where
  | info
  | warn
  deriving DecidableEq, Repr

def LogLevel.text : LogLevel → String
  | .info => "INFO"
  | .warn => "WARN"

structure LogLine where
  level : LogLevel
  message : String
  deriving DecidableEq, Repr

def LogLine.info (message : String) : LogLine :=
  ⟨.info, message⟩

def LogLine.warn (message : String) : LogLine :=
  ⟨.warn, message⟩

def LogLine.display (line : LogLine) : String :=
  line.level.text ++ " " ++ line.message

end Lintel
