/-
Settings from a document. A key that is no setting is passed over; a setting of the wrong type is
refused, and so is a text that is no document.
-/
import Dispatch.Settings.Basic
import Dispatch.Toml.Document

namespace Dispatch.Settings

open Toml (Key Node Table)

/-- A letter as it counts in names of settings: in lower case. Two letters beyond ASCII have their
lower case in it. -/
def foldLetter (c : Char) : Char :=
  if c = '\u017f' then 's' else if c = '\u212a' then 'k' else c.toLower

/-- Whether a key is the name of a setting, in upper or lower case. -/
def isNamed (name : String) (key : Key) : Bool := key.map foldLetter == name.toList

def integer? : Node → Option Int64
  | .value (.scalar (.integer n)) => some n
  | _ => none

def boolean? : Node → Option Bool
  | .value (.scalar (.boolean b)) => some b
  | _ => none

def string? : Node → Option Bytes
  | .value (.scalar (.string s)) => some (Text.Utf8.encodeAll s)
  | _ => none

def table? : Node → Option Table
  | .table t => some t
  | _ => none

/-- Take the settings of a table in turn. -/
def takeAll (take : Settings → Key × Node → Option Settings) (s : Settings) : Table → Option Settings
  | [] => some s
  | entry :: t => (take s entry).bind fun s => takeAll take s t

/-- Take a setting of the machine. -/
def takeMachine (s : Settings) : Key × Node → Option Settings
  | (key, node) =>
    if isNamed "symbol-capacity" key then (integer? node).map fun n => { s with symbolCapacity := n }
    else if isNamed "trace-dispatch" key then (boolean? node).map fun b => { s with trace := b }
    else some s

/-- Take a setting of the log. -/
def takeLog (s : Settings) : Key × Node → Option Settings
  | (key, node) =>
    if isNamed "verbosity" key then (integer? node).map fun n => { s with verbosity := n }
    else if isNamed "path" key then (string? node).map fun p => { s with logFile := p }
    else some s

/-- Take a group of settings. -/
def takeGroup (s : Settings) : Key × Node → Option Settings
  | (key, node) =>
    if isNamed "runtime" key then (table? node).bind (takeAll takeMachine s)
    else if isNamed "log" key then (table? node).bind (takeAll takeLog s)
    else some s

/-- The settings that a text gives; what it leaves out keeps its default. -/
def decode? (data : Bytes) : Option Settings := (Toml.document? data).bind (takeAll takeGroup default)

end Dispatch.Settings
