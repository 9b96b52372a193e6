/-!
# Failures

Why an operation on the stores or on an output did not succeed, and the text it is reported with.
-/

namespace PageScript

/-- Why the file system turned down an access to a path. -/
inductive FileError where
  | notFound
  | alreadyExists
  | notFolder
  | isFolder
  | invalidArgument
  | nameTooLong
  | nulInPath
  /-- Any other reason, in the words of the system. -/
  | other (message : String)
deriving DecidableEq

def FileError.message : FileError → String
  | .notFound => "No such file or directory (os error 2)"
  | .alreadyExists => "File exists (os error 17)"
  | .notFolder => "Not a directory (os error 20)"
  | .isFolder => "Is a directory (os error 21)"
  | .invalidArgument => "Invalid argument (os error 22)"
  | .nameTooLong => "File name too long (os error 36)"
  | .nulInPath => "file name contained an unexpected NUL byte"
  | .other message => message

/-- Why an input or output did not take place. -/
inductive InOutCause where
  | file (e : FileError)
  | sinkClosed
  | refused (message : String)
deriving DecidableEq

def InOutCause.message : InOutCause → String
  | .file e => e.message
  | .sinkClosed => "sink closed"
  | .refused message => message

inductive Failure where
  | inOut (cause : InOutCause)
  | csv (cause : InOutCause)
  | internal (message : String)
deriving DecidableEq

def Failure.message : Failure → String
  | .inOut cause => "IO error: " ++ cause.message
  | .csv cause => "CSV error: " ++ cause.message
  | .internal message => "Internal error: " ++ message

end PageScript
