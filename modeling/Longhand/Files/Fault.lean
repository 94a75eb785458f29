/-!
# Why a file cannot be used

The faults a file system reports when a path is opened, read or written, each
with the wording and number that systems give it.
-/

namespace Longhand.Files

/-- A refusal of the file system. -/
inductive Fault where
  | notFound
  | notDirectory
  | isDirectory
  | alreadyExists
  | nameTooLong
  /-- A name holds the character that ends names in system calls. -/
  | nulInName
  /-- A text was wanted and the bytes encode none. -/
  | notText
  /-- Any other refusal, in the words of the system. -/
  | other (wording : String)
  deriving DecidableEq, Repr

/-- The wording of a refusal. -/
def Fault.text : Fault → String
  | notFound => "No such file or directory (os error 2)"
  | notDirectory => "Not a directory (os error 20)"
  | isDirectory => "Is a directory (os error 21)"
  | alreadyExists => "File exists (os error 17)"
  | nameTooLong => "File name too long (os error 36)"
  | nulInName => "file name contained an unexpected NUL byte"
  | notText => "stream did not contain valid UTF-8"
  | other wording => wording

end Longhand.Files
