/-!
# System errors

What the file system answers when it refuses a request.
-/

namespace Backtest.Storage

inductive Fault
  | noSuchFile
  | fileExists
  | notADirectory
  | isADirectory
  | nameTooLong
  | nameWithNull
  | other (text : String)
deriving DecidableEq, Repr

def Fault.message : Fault → String
  | noSuchFile => "No such file or directory (os error 2)"
  | fileExists => "File exists (os error 17)"
  | notADirectory => "Not a directory (os error 20)"
  | isADirectory => "Is a directory (os error 21)"
  | nameTooLong => "File name too long (os error 36)"
  | nameWithNull => "file name contained an unexpected NUL byte"
  | other text => text

end Backtest.Storage
