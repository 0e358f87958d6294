import Interpolation.Text.Basic

/-!
# Failures

* `IoError` — what can go wrong with a file, with the input or with the output;
* `Failure` — where it went wrong: reading or writing a file, or talking to the user.
-/

namespace Interpolation

/-- What can go wrong with a file, the input or the output. -/
inductive IoError where
  /-- A path leads nowhere. -/
  | notFound
  /-- A path goes on behind something that is not a directory. -/
  | notDirectory
  /-- A directory stands where a file is needed. -/
  | isDirectory
  /-- A path leads through too many links. -/
  | tooManyLinks
  /-- Bytes that are no well-formed UTF-8. -/
  | invalidText
  /-- The output takes no more bytes. -/
  | outputClosed
  /-- Anything else, in the words of the operating system. -/
  | other (text : Text)
  deriving DecidableEq, Repr

namespace IoError

def message : IoError → Text
  | .notFound => "No such file or directory (os error 2)".toList
  | .notDirectory => "Not a directory (os error 20)".toList
  | .isDirectory => "Is a directory (os error 21)".toList
  | .tooManyLinks => "Too many levels of symbolic links (os error 40)".toList
  | .invalidText => "stream did not contain valid UTF-8".toList
  | .outputClosed => "output closed".toList
  | .other text => text

end IoError

/-- What failed, and why. -/
inductive Failure where
  | read (path : Text) (cause : IoError)
  | write (path : Text) (cause : IoError)
  /-- The output could not be written, or an answer could not be read. -/
  | console (cause : IoError)
  deriving DecidableEq, Repr

namespace Failure

def cause : Failure → IoError
  | .read _ cause => cause
  | .write _ cause => cause
  | .console cause => cause

def message : Failure → Text
  | .read path cause => "failed to read ".toList ++ path ++ ": ".toList ++ cause.message
  | .write path cause => "failed to write ".toList ++ path ++ ": ".toList ++ cause.message
  | .console cause => "failed to talk to the terminal: ".toList ++ cause.message

end Failure

end Interpolation
