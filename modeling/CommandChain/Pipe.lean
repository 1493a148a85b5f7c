import CommandChain.Record.Basic
import CommandChain.StopToken
/-!
# Pipes

A pipe stands between two neighbouring commands and holds at most one record. A write hands the
record over and the reader takes it before the next write; a write that finds a record waiting is
refused. A record that waits can still be read after the pipe is closed or stopped.
-/

namespace CommandChain

/-- Why a write is refused. -/
inductive PipeError where
  | closed
  | full
  | stopped
deriving DecidableEq

namespace PipeError

def name : PipeError → String
  | closed => "Closed"
  | full => "Full"
  | stopped => "Stopped"

def message : PipeError → String
  | closed => "Pipe is closed"
  | full => "Pipe already holds an unconsumed record"
  | stopped => "Pipe was stopped"

end PipeError

/-- What a read finds. -/
inductive PipeRead where
  | record (r : Record)
  /-- Nothing waits, but more may come. -/
  | empty
  /-- Nothing waits and nothing will come. -/
  | endOfInput

/-- A pipe that holds at most one record. -/
structure Pipe where
  slot : Option Record := none
  closed : Bool := false
  written : Nat := 0
  read : Nat := 0

namespace Pipe

/-- The number of records that wait, none or one. -/
def pending (p : Pipe) : Nat :=
  if p.slot.isSome then 1 else 0

/-- Places a record, given whether the pipe's token has been signaled. -/
def write (p : Pipe) (stopped : Bool) (r : Record) : Except PipeError Pipe :=
  if stopped then .error .stopped
  else if p.closed then .error .closed
  else if p.slot.isSome then .error .full
  else .ok { p with slot := some r, written := p.written + 1 }

/-- Takes the record that waits, given whether the pipe's token has been signaled. -/
def take (p : Pipe) (stopped : Bool) : PipeRead × Pipe :=
  match p.slot with
  | some r => (.record r, { p with slot := none, read := p.read + 1 })
  | none => (if p.closed || stopped then .endOfInput else .empty, p)

/-- Refuses all further writes. -/
def close (p : Pipe) : Pipe :=
  { p with closed := true }

end Pipe

end CommandChain
