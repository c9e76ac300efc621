/-!
# Files

The files of the machine's surroundings, by path, and why a path leads to none.  A path is walked
name by name; the empty name, `.` and `..` stay among the directories.

* `Files.read`   the bytes of a file;
* `Files.absence`   why there is none.
-/

namespace TickMachine

inductive FileError where
  | notFound
  | isDirectory
  | nameTooLong
  /-- Any other reason, in words. -/
  | other (reason : String)
  deriving DecidableEq, Repr

def FileError.message : FileError → String
  | .notFound => "No such file or directory (os error 2)"
  | .isDirectory => "Is a directory (os error 21)"
  | .nameTooLong => "File name too long (os error 36)"
  | .other reason => reason

structure Files where
  /-- The bytes of the file at a path; every other name below a directory is free. -/
  contents : String → Option (List UInt8)

namespace Files

def maxName : Nat := 255

def maxPath : Nat := 4095

/-- Whether a name leads from a directory to a directory. -/
def staysAmongDirectories (name : String) : Bool := name == "" || name == "." || name == ".."

/-- Why a path leads to no file.  A path that is too long is not walked at all; else the first
name that is not a directory decides. -/
def absence (path : String) : FileError :=
  if path.isEmpty then .notFound
  else if maxPath < path.utf8ByteSize then .nameTooLong
  else
    match (path.splitOn "/").find? fun name => !staysAmongDirectories name with
    | none => .isDirectory
    | some name => if maxName < name.utf8ByteSize then .nameTooLong else .notFound

def read (fs : Files) (path : String) : Except FileError (List UInt8) :=
  match fs.contents path with
  | some bytes => .ok bytes
  | none => .error (absence path)

end Files
end TickMachine
