/-!
# Stop tokens

A stop request raises the flag of a token and is seen by that token and by every token derived from
it, never by the token it was derived from. A token knows its own flag and those of its ancestors;
which flags are raised is kept apart, so that a flag can only be raised.
-/

namespace CommandChain

/-- A handle on a stop flag. -/
structure StopToken where
  flag : Nat
  /-- The flags of the tokens it was derived from, nearest first. -/
  ancestors : List Nat
deriving DecidableEq

/-- The flags a token listens to. -/
def StopToken.lineage (token : StopToken) : List Nat :=
  token.flag :: token.ancestors

/-- Whether two handles share one flag. -/
def StopToken.sameAs (a b : StopToken) : Bool :=
  a.flag == b.flag

/-- How many flags there are and which of them are raised. -/
structure StopFlags where
  count : Nat
  raised : List Nat
deriving DecidableEq

namespace StopFlags

/-- No flag at all. -/
def none : StopFlags := ⟨0, []⟩

/-- A token of its own. -/
def newToken (flags : StopFlags) : StopToken × StopFlags :=
  (⟨flags.count, []⟩, { flags with count := flags.count + 1 })

/-- A token derived from another. -/
def childOf (flags : StopFlags) (parent : StopToken) : StopToken × StopFlags :=
  (⟨flags.count, parent.lineage⟩, { flags with count := flags.count + 1 })

def signal (flags : StopFlags) (token : StopToken) : StopFlags :=
  { flags with raised := token.flag :: flags.raised }

/-- Whether a token or one of its ancestors has been signaled. -/
def isSignaled (flags : StopFlags) (token : StopToken) : Bool :=
  token.lineage.any flags.raised.contains

/-- Signals every token of a list. -/
def signalAll (flags : StopFlags) (tokens : List StopToken) : StopFlags :=
  tokens.foldl signal flags

end StopFlags

end CommandChain
