import OscHost.Script.Arguments
/-!
  Coroutines.

  The host's own thread is number zero; it cannot be resumed or suspended.
-/

namespace OscHost.Script.Library.Coroutines

open Lib

/-- The number of the host's own thread. -/
def mainThread : Nat := 0

/-- A coroutine among the arguments. -/
def threadArg (args : Args) (n : Nat) : Lib Nat :=
  match args.get n with
  | .thread id => pure id
  | _ => badType args n "coroutine"

/-- The number of the running thread. -/
def current : Lib Nat := return (← site).thread.getD mainThread

/-- How a thread stands, as the running one sees it. -/
def standing (id : Nat) : Lib Standing := do
  if id = (← current) then pure .running
  else if id = mainThread then pure .normal
  else inspect id

/-- Runs a coroutine; only a suspended one can be. -/
def resumeThread (id : Nat) (args : List Value) : Lib (Except Value (List Value)) := do
  if id = mainThread then pure (.error (.text "cannot resume non-suspended coroutine"))
  else resume id args

def coCreate (args : Args) : Lib (List Value) := do
  let f ← functionArg args 1
  return [.thread (← create f)]

def coResume (args : Args) : Lib (List Value) := do
  let id ← threadArg args 1
  match ← resumeThread id (args.drop 1) with
  | .ok values => return .bool true :: values
  | .error e => return [.bool false, e]

def coYield (args : Args) : Lib (List Value) := yield args

def coStatus (args : Args) : Lib (List Value) := do
  let id ← threadArg args 1
  return [.text (← standing id).name]

def coRunning : Lib (List Value) := do
  let id ← current
  return [.thread id, .bool (id == mainThread)]

def coIsYieldable (args : Args) : Lib (List Value) := do
  match args.get 1 with
  | .thread id =>
    if id = (← current) then return [.bool (← site).canYield]
    else return [.bool (id != mainThread)]
  | _ => return [.bool (← site).canYield]

/-- Closes what a coroutine left open; `error` is the error in progress. -/
def closeLeft (error : Option Value) : List Value → Lib (Option Value)
  | [] => pure error
  | v :: rest => do
    let f ← read (·.metamethod v "__close")
    match ← attemptPinned f [v, error.getD .nil] with
    | .ok _ => closeLeft error rest
    | .error e => closeLeft (some e) rest

/-- Closes a coroutine that does not run; yields the error it ended with, if any. -/
def closeThread (id : Nat) : Lib (Option Value) := do
  let remains ← abandon id
  closeLeft remains.failure remains.leftOpen

def coClose (args : Args) : Lib (List Value) := do
  let id ← threadArg args 1
  match ← standing id with
  | .suspended | .dead =>
    match ← closeThread id with
    | none => return [.bool true]
    | some e => return [.bool false, e]
  | s => raise ("cannot close a " ++ s.name ++ " coroutine").toUTF8

def coWrap (args : Args) : Lib (List Value) := do
  let f ← functionArg args 1
  let id ← create f
  return [.native (← update (·.newNative (.wrapped id)))]

/-- Runs a wrapped coroutine and raises its errors; a text gets the position of the caller. -/
def callWrapped (id : Nat) (args : List Value) : Lib (List Value) := do
  let before ← inspect id
  match ← resumeThread id args with
  | .ok values => pure values
  | .error e =>
    -- an error of the coroutine itself, not of the attempt to resume it
    let closed ← if before == .suspended then closeThread id else pure none
    match closed.getD e with
    | .string s => raise s
    | e => throw e

end OscHost.Script.Library.Coroutines
