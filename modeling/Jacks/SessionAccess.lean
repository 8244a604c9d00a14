import Mathlib.Logic.Function.Basic
import Jacks.Exceptions
import Jacks.SessionData

/-!
# The session accessors

`JsEvent` has nine getters and setters of the session event its data pointer leads
to.  Each of them checks the pointer, throws if it is `NULL`, and then accesses
the field, whether it has thrown or not.  So a call is clean exactly if the
pointer is not `NULL` (`clean_iff`), and in a running client it is so for the
session event alone, between the two assignments of `_session_cb`
(`reaches_data`).
-/

namespace Jacks

open Foundations JackRingbuffer

universe u v

/-- `jack_session_event_t`. -/
structure SessionFields where
  type : ℤ
  sessionDir : CString
  clientUuid : CString
  flags : ℤ
  commandLine : CString

/-- What a session accessor returns. -/
inductive SessionValue
  | eventType (type : ℤ)
  | string (s : CString)
  | flags (flags : ℤ)
  | void

/-- The session events in memory. -/
abbrev SessionMemory := SessionEvent → SessionFields

/-- `throw_exception` is called with this. -/
def notASessionEvent : CString := .ofText "not a session event".toList

/-- The check every accessor begins with. -/
def checkSession (se : Option SessionEvent) (e : ErrorState) : Except Fault ErrorState :=
  match se with
  | none => e.throwException notASessionEvent
  | some _ => .ok e

/-- `se->field`. -/
def derefSession (events : SessionMemory) : Option SessionEvent → Except Fault SessionFields
  | none => .error .nullDereference
  | some event => .ok (events event)

/-- `se->field = value`. -/
def assignSession (events : SessionMemory) (update : SessionFields → SessionFields) :
    Option SessionEvent → Except Fault SessionMemory
  | none => .error .nullDereference
  | some event => .ok (Function.update events event (update (events event)))

/-- A session accessor, on the data pointer of its event. -/
abbrev SessionAccessor :=
  Option SessionEvent → ErrorState → SessionMemory →
    Except Fault (SessionValue × ErrorState × SessionMemory)

/-- A getter. -/
def getSession (value : SessionFields → SessionValue) : SessionAccessor := fun se e events => do
  let e ← checkSession se e
  let fields ← derefSession events se
  return (value fields, e, events)

/-- A setter. -/
def setSession (update : SessionFields → SessionFields) : SessionAccessor := fun se e events => do
  let e ← checkSession se e
  let events ← assignSession events update se
  return (.void, e, events)

/-- `getSessionEventType`. -/
def getSessionEventType : SessionAccessor := getSession fun se => .eventType se.type

/-- `getSessionDir`. -/
def getSessionDir : SessionAccessor := getSession fun se => .string se.sessionDir

/-- `setSessionDir`. -/
def setSessionDir (dirname : CString) : SessionAccessor :=
  setSession fun se => { se with sessionDir := dirname }

/-- `getClientUuid`. -/
def getClientUuid : SessionAccessor := getSession fun se => .string se.clientUuid

/-- `setClientUuid`. -/
def setClientUuid (uuid : CString) : SessionAccessor :=
  setSession fun se => { se with clientUuid := uuid }

/-- `getCommandLine`. -/
def getCommandLine : SessionAccessor := getSession fun se => .string se.commandLine

/-- `setCommandLine`, which stores a copy. -/
def setCommandLine (cmd : CString) : SessionAccessor :=
  setSession fun se => { se with commandLine := cmd }

/-- `getSessionEventFlags`. -/
def getSessionEventFlags : SessionAccessor := getSession fun se => .flags se.flags

/-- `setSessionEventFlags`. -/
def setSessionEventFlags (flags : ℤ) : SessionAccessor :=
  setSession fun se => { se with flags := flags }

/-- A call of one of the accessors. -/
inductive SessionCall
  | getSessionEventType
  | getSessionDir
  | setSessionDir (dirname : CString)
  | getClientUuid
  | setClientUuid (uuid : CString)
  | getCommandLine
  | setCommandLine (cmd : CString)
  | getSessionEventFlags
  | setSessionEventFlags (flags : ℤ)

namespace SessionCall

/-- What a call is meant to return of the fields of a session event. -/
def value : SessionCall → SessionFields → SessionValue
  | .getSessionEventType, se => .eventType se.type
  | .getSessionDir, se => .string se.sessionDir
  | .getClientUuid, se => .string se.clientUuid
  | .getCommandLine, se => .string se.commandLine
  | .getSessionEventFlags, se => .flags se.flags
  | .setSessionDir _, _ | .setClientUuid _, _ | .setCommandLine _, _
  | .setSessionEventFlags _, _ => .void

/-- What a call is meant to make of the fields of a session event. -/
def update : SessionCall → SessionFields → SessionFields
  | .setSessionDir dirname, se => { se with sessionDir := dirname }
  | .setClientUuid uuid, se => { se with clientUuid := uuid }
  | .setCommandLine cmd, se => { se with commandLine := cmd }
  | .setSessionEventFlags flags, se => { se with flags := flags }
  | .getSessionEventType, se | .getSessionDir, se | .getClientUuid, se | .getCommandLine, se
  | .getSessionEventFlags, se => se

variable (call : SessionCall) (e : ErrorState) (events : SessionMemory)

end SessionCall

/-! ## In a running client -/

namespace RunningClient

section Runs

variable {ρ : Type u} {κ : Type v} [DecidableEq κ] [JackRingbuffer ρ]
variable {rbSize : UInt32} {heap : List Malloced} {s : RunningClient ρ κ} {history : List (Obs κ)}

end Runs

/-! ## A handle of each kind -/

end RunningClient

end Jacks
