/-
A session that runs under settings, and the file that it logs to.

A line of the file starts with the time it was written and names its machine by an identifier. Neither
says what happened, and both differ from run to run: `LogFile.shown` leaves the time out and puts a mark
in the place of the identifier.
-/
import Dispatch.FileTree
import Dispatch.Session
import Dispatch.Settings.Basic

namespace Dispatch

/-- What every line that a session writes bears. -/
structure Stamp where
  /-- The time of writing, as `timeShape` says. -/
  time : Bytes
  /-- The identifier of the machine, as `idShape` says. -/
  id : Bytes
  deriving DecidableEq, Repr

/-- A level in a log file, six columns wide. -/
def Level.column : Level → Bytes
  | .info => Bytes.ofString "  INFO"
  | .debug => Bytes.ofString " DEBUG"

namespace LogFile

/-- The name of the log between level and message. -/
def title : Bytes := Bytes.ofString " [ember.vm] "

/-- A line of a log file. -/
def text (stamp : Stamp) (line : LogLine) : Bytes :=
  stamp.time ++ line.level.column ++ title ++ line.message stamp.id ++ [0x0a]

/-! ## Showing lines -/

/-- Whether a byte fits one place of a shape: `0` stands for a digit, `x` for a hexadecimal digit in
lower case, any other byte for itself. -/
def fits (place b : UInt8) : Bool :=
  let isDigit := 0x30 ≤ b && b ≤ 0x39
  if place = 0x30 then isDigit
  else if place = 0x78 then isDigit || (0x61 ≤ b && b ≤ 0x66)
  else b == place

/-- What follows a shape at the front of a text. -/
def after? : (shape text : Bytes) → Option Bytes
  | [], text => some text
  | _ :: _, [] => none
  | place :: shape, b :: text => if fits place b then after? shape text else none

/-- Date and time to the millisecond. -/
def timeShape : Bytes := Bytes.ofString "0000/00/00 00:00:00.000"

/-- Thirty-two hexadecimal digits in five groups. -/
def idShape : Bytes := Bytes.ofString "xxxxxxxx-xxxx-xxxx-xxxx-xxxxxxxxxxxx"

/-- What follows a fixed text at the front of a text. -/
def strip? (front text : Bytes) : Option Bytes :=
  if front.isPrefixOf text then some (text.drop front.length) else none

/-- A line without its time. -/
def dropTime (line : Bytes) : Bytes := (after? timeShape line).getD line

/-- A message that starts with `opening` and an identifier, with a mark in place of the identifier. -/
def maskAfter? (mark opening message : Bytes) : Option Bytes := do
  let rest ← after? idShape (← strip? opening message)
  return opening ++ mark ++ rest

/-- A message with a mark in place of the identifier that it starts with. -/
def maskMessage (mark message : Bytes) : Bytes :=
  ((maskAfter? mark (Bytes.ofString "runtime ") message).or
    (maskAfter? mark (Bytes.ofString "[") message)).getD message

/-- A line without its time, with a mark in place of the identifier that its message starts with. -/
def maskLine (mark line : Bytes) : Bytes :=
  let (level, rest) := line.splitAt 6
  match strip? title rest with
  | some message => level ++ title ++ maskMessage mark message
  | none => line

/-- The lines of a log file that hold anything, without times, with a mark in place of identifiers. -/
def shown (mark content : Bytes) : List Bytes :=
  ((Bytes.splitOn 0x0a content).filter (!·.isEmpty)).map fun line => maskLine mark (dropTime line)

end LogFile

namespace Settings

/-- Add those of the lines to the log that the settings let through. -/
def writeLog (s : Settings) (fs : FileSystem) (stamp : Stamp) (lines : List LogLine) : FileSystem :=
  if s.logPath.isEmpty || !s.hasLog then fs
  else fs.append s.logPath ((lines.filter fun line => s.logs line.level).flatMap (LogFile.text stamp))

/-- Run a session with one machine under settings. The log is there before the machine. -/
def run (s : Settings) (fs : FileSystem) (stamp : Stamp) (nesting : Nat) (requests : List Request) :
    Except Crash (List Reply) × FileSystem :=
  match Session.start nesting [s.options] with
  | .error crash => (.error crash, s.writeLog fs stamp [])
  | .ok session =>
    let (replies, _) := session.run requests
    (.ok replies, s.writeLog fs stamp (session.bootLog ++ replies.flatMap Reply.log))

/-- The contents of the log, if there is one. -/
def log? (s : Settings) (fs : FileSystem) : Option Bytes :=
  if s.logPath.isEmpty then none else (fs.read s.logPath).toOption

end Settings

end Dispatch
