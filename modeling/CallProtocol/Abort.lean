import CallProtocol.Text.Fields
import CallProtocol.Text.Quoted

/-!
# Aborts

An abort says what went wrong and collects the names of the functions that it
unwinds through, innermost first. Its stack trace is a heading followed by one
line for each of them, so the trace is read off the list and never edited. The
heading is the message, unless the host function that aborts has put something
else in its place.
-/

namespace CallProtocol

inductive AbortKind where
  | other
  | nullPointer
  | badArgument
  | tooManyParameters
  | notCompiled
  | hostPanic
  deriving DecidableEq

namespace AbortKind

def all : List AbortKind :=
  [other, nullPointer, badArgument, tooManyParameters, notCompiled, hostPanic]

def name : AbortKind → String
  | other => "Other"
  | nullPointer => "NullPointer"
  | badArgument => "BadArgument"
  | tooManyParameters => "TooManyParameters"
  | notCompiled => "NotCompiled"
  | hostPanic => "HostPanic"

def words : AbortKind → String
  | other => "abort"
  | nullPointer => "null pointer"
  | badArgument => "bad argument"
  | tooManyParameters => "too many parameters"
  | notCompiled => "function not compiled"
  | hostPanic => "host panic"

end AbortKind

structure Abort where
  kind : AbortKind
  message : String
  /-- What its stack trace begins with. -/
  heading : String := message ++ "\n"
  /-- The functions it has unwound through, innermost first. -/
  callers : List String := []
  /-- Its message has been reported. -/
  printed : Bool := false
  deriving DecidableEq

inductive Panic where
  | text (message : String)
  | silent
  deriving DecidableEq

def Panic.abort : Panic → Abort
  | text message => { kind := .hostPanic, message }
  | silent => { kind := .hostPanic, message := "host function panicked" }

namespace Abort

def through (a : Abort) (name : String) : Abort :=
  { a with callers := a.callers ++ [name] }

def report (a : Abort) : Abort := { a with printed := true }

def text (a : Abort) : String := a.kind.words ++ ": " ++ a.message

def callerLine (name : String) : String := "Called from " ++ name ++ "\n"

def stacktrace (a : Abort) : String :=
  a.heading ++ String.join (a.callers.map callerLine)

def details (a : Abort) : String :=
  Text.fields "VmAbort"
    [("kind", a.kind.name), ("message", Text.quoted a.message),
      ("stacktrace", Text.quoted a.stacktrace), ("printed", Text.bool a.printed)]

@[simp] theorem through_kind (a : Abort) (name : String) : (a.through name).kind = a.kind := rfl

@[simp] theorem through_message (a : Abort) (name : String) :
    (a.through name).message = a.message := rfl

@[simp] theorem through_heading (a : Abort) (name : String) :
    (a.through name).heading = a.heading := rfl

@[simp] theorem through_printed (a : Abort) (name : String) :
    (a.through name).printed = a.printed := rfl

@[simp] theorem through_callers (a : Abort) (name : String) :
    (a.through name).callers = a.callers ++ [name] := rfl

theorem stacktrace_through (a : Abort) (name : String) :
    (a.through name).stacktrace = a.stacktrace ++ callerLine name := by
  simp [stacktrace, String.join_append, String.append_assoc]

end Abort

end CallProtocol
