/-!
# Why a file operation fails

One constructor for each cause, with the system's number and wording where the cause is the
system's, and a wording alone where the operation never gets that far.
-/

namespace IncrementalLint

inductive FileError where
  | notPermitted
  | notFound
  | noSuchProcess
  | noExecFormat
  | badDescriptor
  | noChildren
  | permissionDenied
  | alreadyExists
  | notDirectory
  | isDirectory
  | invalidArgument
  | noSpace
  | illegalSeek
  | brokenPipe
  | nameTooLong
  | notEmpty
  | tooManyLinks
  | argumentsTooLong
  | outOfMemory
  | notText
  | nulInName
  | nulInData
  | emptyPath
  deriving DecidableEq, Repr, Inhabited

namespace FileError

def reason : FileError → String
  | notPermitted => "Operation not permitted"
  | notFound => "No such file or directory"
  | noSuchProcess => "No such process"
  | noExecFormat => "Exec format error"
  | badDescriptor => "Bad file descriptor"
  | noChildren => "No child processes"
  | permissionDenied => "Permission denied"
  | alreadyExists => "File exists"
  | notDirectory => "Not a directory"
  | isDirectory => "Is a directory"
  | invalidArgument => "Invalid argument"
  | noSpace => "No space left on device"
  | illegalSeek => "Illegal seek"
  | brokenPipe => "Broken pipe"
  | nameTooLong => "File name too long"
  | notEmpty => "Directory not empty"
  | tooManyLinks => "Too many levels of symbolic links"
  | argumentsTooLong => "Argument list too long"
  | outOfMemory => "out of memory"
  | notText => "stream did not contain valid UTF-8"
  | nulInName => "file name contained an unexpected NUL byte"
  | nulInData => "nul byte found in provided data"
  | emptyPath => "cannot make an empty path absolute"

/-- the system's number of the cause -/
def number? : FileError → Option Nat
  | notPermitted => some 1
  | notFound => some 2
  | noSuchProcess => some 3
  | noExecFormat => some 8
  | badDescriptor => some 9
  | noChildren => some 10
  | permissionDenied => some 13
  | alreadyExists => some 17
  | notDirectory => some 20
  | isDirectory => some 21
  | invalidArgument => some 22
  | noSpace => some 28
  | illegalSeek => some 29
  | brokenPipe => some 32
  | nameTooLong => some 36
  | notEmpty => some 39
  | tooManyLinks => some 40
  | argumentsTooLong => some 7
  | outOfMemory => none
  | notText => none
  | nulInName => none
  | nulInData => none
  | emptyPath => none

def message (e : FileError) : String :=
  match e.number? with
  | some n => e.reason ++ " (os error " ++ toString n ++ ")"
  | none => e.reason

end FileError

end IncrementalLint
