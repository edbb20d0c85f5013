/-
The settings of a program that runs methods: how its machine is made, and what is logged where.
-/
import Dispatch.Path
import Dispatch.Machine

namespace Dispatch

/-- The settings, with the directory of the file that they come from. -/
structure Settings where
  symbolCapacity : Int64
  trace : Bool
  /-- How much is logged. -/
  verbosity : Int64
  /-- The path of the log as it is written, empty for none. -/
  logFile : Bytes
  /-- The directory that a relative path of the log starts from, empty if there is none. -/
  dir : Bytes
  deriving DecidableEq, Repr

namespace Settings

/-- The settings where nothing is set. -/
def default : Settings := ⟨256, false, 1, [], []⟩

/-- The options of the machine. A capacity that is not positive is none. -/
def options (s : Settings) : Options :=
  ⟨if 0 < s.symbolCapacity then s.symbolCapacity.toInt else Options.default.symbolCapacity, s.trace⟩

/-- The path of the log, empty for none. -/
def logPath (s : Settings) : Bytes :=
  if s.logFile.isEmpty then []
  else if Path.isAbsolute s.logFile || s.dir.isEmpty then s.logFile
  else Path.join s.dir s.logFile

/-- Whether lines of a level are logged. -/
def logs (s : Settings) : Level → Bool
  | .info => decide (1 ≤ s.verbosity)
  | .debug => decide (2 ≤ s.verbosity)

/-- Whether there is a log at all, be it empty. -/
def hasLog (s : Settings) : Bool := decide (-3 ≤ s.verbosity)

end Settings

end Dispatch
