/-
What can go wrong: faults and errors.

A fault stops the call that runs into it: arithmetic or a slice that leaves its range, or a caller
that breaks the rules of counting references or of taking frames out one at a time. An error is an
answer: the stream or the data are not usable, and it says why. Both are causes; their wording
is in `Fault.message` and `SubtitleError.message`.
-/
namespace Subtitles

set_option autoImplicit false

inductive Operation
  | add
  | subtract
  | multiply
  deriving DecidableEq, Repr

/-- Rules of the cache that a caller can break. -/
inductive CacheMisuse
  | queuedEntryFreed
  | referenceToFreed
  | releaseOfFreed
  | releaseOfUncounted
  | publishOnFreed
  | publishedTwice
  | sharingUnrendered
  deriving DecidableEq, Repr

/-- Rules of taking frames out that a caller can break. -/
inductive CheckoutMisuse
  | acquiredTwice
  | alreadyReserved
  | releasedNotCurrent
  | releasedNotReserved
  | closedWhileOut
  deriving DecidableEq, Repr

inductive Fault
  | overflow (op : Operation)
  | capacity
  /-- A slice up to `stop` of data that is not so long. -/
  | outOfRange (stop length : Nat)
  | cache (misuse : CacheMisuse)
  | checkout (misuse : CheckoutMisuse)
  deriving DecidableEq, Repr

def Operation.verb : Operation → String
  | .add => "add"
  | .subtract => "subtract"
  | .multiply => "multiply"

def CacheMisuse.message : CacheMisuse → String
  | .queuedEntryFreed => "queued cache entry without arena slot"
  | .referenceToFreed => "add_ref on freed cache entry"
  | .releaseOfFreed => "unref on freed cache entry"
  | .releaseOfUncounted => "live cache entry with zero refcount"
  | .publishOnFreed => "publish on freed cache entry"
  | .publishedTwice => "cache entry rendered twice"
  | .sharingUnrendered => "sharing storage of an unrendered entry"

def CheckoutMisuse.message : CheckoutMisuse → String
  | .acquiredTwice => "subtitle frame acquired twice without release"
  | .alreadyReserved =>
    "subtitle renderer already reserved: release the previous frame first"
  | .releasedNotCurrent => "released frame is not the current one"
  | .releasedNotReserved => "reserved frame without reservation"
  | .closedWhileOut => "coordinator destroyed with a frame outstanding"

def Fault.message : Fault → String
  | .overflow op => "attempt to " ++ op.verb ++ " with overflow"
  | .capacity => "capacity overflow"
  | .outOfRange stop length => s!"range end index {stop} out of range for slice of length {length}"
  | .cache misuse => misuse.message
  | .checkout misuse => misuse.message

/-- Why a stream or a piece of data cannot be used. -/
inductive SubtitleError
  /-- No backend takes the codec. -/
  | noDecoder (codec : String)
  /-- Options or data that a caller gave are out of range or malformed. -/
  | validation (reason : String)
  /-- A packet cannot be decoded. -/
  | decode (reason : String)
  /-- A backend refuses an operation. -/
  | backend (reason : String)
  /-- Anything else; its text is the whole message. -/
  | other (text : String)
  deriving DecidableEq, Repr

def SubtitleError.message : SubtitleError → String
  | .noDecoder codec => "no subtitle decoder for format '" ++ codec ++ "'"
  | .validation reason => "validation error: " ++ reason
  | .decode reason => "decode error: " ++ reason
  | .backend reason => "backend error: " ++ reason
  | .other text => text

end Subtitles
