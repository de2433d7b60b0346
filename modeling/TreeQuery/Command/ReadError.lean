/-!
# Why a text cannot be read

What is at a path may not lead to a text. Most causes are reported by the system, each under a
number of its own; one concerns the bytes that were read.
-/

namespace TreeQuery.Command

/-- What the system reports of a path that cannot be read. -/
inductive SystemError where
  /-- Nothing is there. -/
  | missing
  /-- The path leads to a device that is not there. -/
  | noDevice
  /-- The path may not be read. -/
  | denied
  /-- The path goes on behind something that is no directory. -/
  | notDirectory
  /-- The path leads to a directory. -/
  | directory
  /-- The path or one of its names is too long. -/
  | nameTooLong
  deriving DecidableEq

namespace SystemError

/-- All reports of the system. -/
def all : List SystemError := [.missing, .noDevice, .denied, .notDirectory, .directory, .nameTooLong]

/-- The number of a report. -/
def code : SystemError → Nat
  | .missing => 2
  | .noDevice => 6
  | .denied => 13
  | .notDirectory => 20
  | .directory => 21
  | .nameTooLong => 36

/-- The words of a report. -/
def words : SystemError → String
  | .missing => "No such file or directory"
  | .noDevice => "No such device or address"
  | .denied => "Permission denied"
  | .notDirectory => "Not a directory"
  | .directory => "Is a directory"
  | .nameTooLong => "File name too long"

/-- The report of a number. -/
def ofCode? (code : Nat) : Option SystemError := all.find? fun error => error.code == code

/-- Every report is found under its number. -/
theorem ofCode?_code (error : SystemError) : ofCode? error.code = some error := by
  cases error <;> rfl

end SystemError

/-- Why a text cannot be read. -/
inductive ReadError where
  /-- The system reports a known cause. -/
  | system (error : SystemError)
  /-- The bytes that were read do not write a text. -/
  | notText
  /-- Anything else, in words of its own. -/
  | other (message : String)

/-- The words for a text that cannot be read. -/
def ReadError.message : ReadError → String
  | .system error =>
    let words := error.words
    let code := error.code
    s!"{words} (os error {code})"
  | .notText => "stream did not contain valid UTF-8"
  | .other message => message

end TreeQuery.Command
