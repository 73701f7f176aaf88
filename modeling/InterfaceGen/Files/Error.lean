import InterfaceGen.Text.Quoted
import InterfaceGen.Text.Utf8

/-!
# Why a file cannot be used

Most errors name the path that was asked for. A path with a null character is no path at all: a
run reports the other errors file by file, but stops at this one.
-/

namespace InterfaceGen

/-- The causes for which a file or a directory cannot be used. -/
inductive FileError where
  /-- Nothing has this path. -/
  | notFound (path : String)
  /-- Something was to be made where there is something. -/
  | fileExists (path : String)
  /-- The path leads through a file. -/
  | notDirectory (path : String)
  /-- A file was to be read or written where a directory is. -/
  | isDirectory (path : String)
  /-- A name on the path is longer than a file system stores. -/
  | longName (path : String)
  /-- The path holds a null character. -/
  | nullCharacter
  deriving DecidableEq, Repr

namespace FileError

/-- The name of the kind of error. -/
def kind : FileError → String
  | notFound _ => "FileNotFoundError"
  | fileExists _ => "FileExistsError"
  | notDirectory _ => "NotADirectoryError"
  | isDirectory _ => "IsADirectoryError"
  | longName _ => "OSError"
  | nullCharacter => "ValueError"

/-- The error in words, after its number if it has one. -/
def message : FileError → String
  | notFound path => "[Errno 2] No such file or directory: " ++ Text.Quoted.encode path
  | fileExists path => "[Errno 17] File exists: " ++ Text.Quoted.encode path
  | notDirectory path => "[Errno 20] Not a directory: " ++ Text.Quoted.encode path
  | isDirectory path => "[Errno 21] Is a directory: " ++ Text.Quoted.encode path
  | longName path => "[Errno 36] File name too long: " ++ Text.Quoted.encode path
  | nullCharacter => "embedded null byte"

/-- Does a run report the error and go on? -/
def isReported : FileError → Bool
  | nullCharacter => false
  | _ => true

end FileError

/-- Why no text can be read from a file. -/
inductive ReadError where
  | file (error : FileError)
  /-- The bytes of the file are no text. -/
  | undecodable (error : Text.Utf8.DecodeError)
  deriving DecidableEq, Repr

/-- The error in words. -/
def ReadError.message : ReadError → String
  | file error => error.message
  | undecodable error => error.message

end InterfaceGen
