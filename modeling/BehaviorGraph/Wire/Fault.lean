/-!
# Input and output faults

Why bytes could not be read or written: the input ended or made no sense, the output took no more,
or the system refused a call.

* `SystemFault`: what a system answers, with its number;
* `Fault`, `Fault.kind`, `Fault.message`.
-/

namespace BehaviorGraph

/-- The refusals of a system that concern files. -/
inductive SystemFault
  | notFound
  | isADirectory
  | invalidArgument
  | fileTooLarge
  | storageFull
  deriving DecidableEq

namespace SystemFault

/-- The system's number for the refusal. -/
def code : SystemFault → Nat
  | notFound => 2
  | isADirectory => 21
  | invalidArgument => 22
  | fileTooLarge => 27
  | storageFull => 28

/-- The system's words for the refusal. -/
def text : SystemFault → String
  | notFound => "No such file or directory"
  | isADirectory => "Is a directory"
  | invalidArgument => "Invalid argument"
  | fileTooLarge => "File too large"
  | storageFull => "No space left on device"

end SystemFault

/-- Why reading or writing bytes failed. -/
inductive Fault
  /-- the input ended inside a value -/
  | endOfInput
  /-- the output took no byte of what was written to it -/
  | nothingTaken
  /-- the output took no byte of what was buffered for it -/
  | bufferNotTaken
  /-- a stored length is larger than any length that is written -/
  | lengthOutOfRange
  /-- a length is too large to be written -/
  | lengthTooLarge (length limit : Nat)
  /-- the system refused a call -/
  | system (refusal : SystemFault)
  /-- a reader or writer gave up with words of its own -/
  | custom (text : String)
  deriving DecidableEq

/-- The kinds that faults are sorted into. -/
inductive FaultKind
  | unexpectedEnd
  | writeZero
  | invalidData
  | invalidInput
  | notFound
  | isADirectory
  | fileTooLarge
  | storageFull
  | other
  deriving DecidableEq

/-- The kind of a fault. -/
def Fault.kind : Fault → FaultKind
  | endOfInput => .unexpectedEnd
  | nothingTaken => .writeZero
  | bufferNotTaken => .writeZero
  | lengthOutOfRange => .invalidData
  | lengthTooLarge _ _ => .invalidInput
  | system .notFound => .notFound
  | system .isADirectory => .isADirectory
  | system .invalidArgument => .invalidInput
  | system .fileTooLarge => .fileTooLarge
  | system .storageFull => .storageFull
  | custom _ => .other

/-- The report of a fault. -/
def Fault.message : Fault → String
  | endOfInput => "failed to fill whole buffer"
  | nothingTaken => "failed to write whole buffer"
  | bufferNotTaken => "failed to write the buffered data"
  | lengthOutOfRange => "nat out of range"
  | lengthTooLarge length limit => "nat " ++ toString length ++ " exceeds " ++ toString limit
  | system refusal => refusal.text ++ " (os error " ++ toString refusal.code ++ ")"
  | custom text => text

end BehaviorGraph
