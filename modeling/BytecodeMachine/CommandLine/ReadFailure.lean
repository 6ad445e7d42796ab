/-!
# Unreadable files

Why the system does not read a file, with the number, the kind and the wording
that it gives.  A path is followed name by name, and the first name that leads
nowhere decides what is wrong with it.
-/

namespace BytecodeMachine.CommandLine

/-- Why a file cannot be read. -/
inductive ReadFailure where
  | notFound
  | permissionDenied
  | notDirectory
  | isDirectory
  | nameTooLong
  | other (message : String)
  deriving DecidableEq, Repr

namespace ReadFailure

/-- The system's number for the failure. -/
def code : ReadFailure → Nat
  | notFound => 2
  | permissionDenied => 13
  | notDirectory => 20
  | isDirectory => 21
  | nameTooLong => 36
  | other _ => 5

/-- The kind of the failure. -/
def kind : ReadFailure → String
  | notFound => "NotFound"
  | permissionDenied => "PermissionDenied"
  | notDirectory => "NotADirectory"
  | isDirectory => "IsADirectory"
  | nameTooLong => "InvalidFilename"
  | other _ => "Uncategorized"

/-- The wording of the failure. -/
def message : ReadFailure → String
  | notFound => "No such file or directory"
  | permissionDenied => "Permission denied"
  | notDirectory => "Not a directory"
  | isDirectory => "Is a directory"
  | nameTooLong => "File name too long"
  | other message => message

/-- The bytes of the longest name in a directory. -/
def longestName : Nat := 255

/-- The bytes of the longest path. -/
def longestPath : Nat := 4095

/-- The name leads to a directory wherever it stands. -/
def alwaysLeads (name : String) : Bool :=
  name == "" || name == "." || name == ".."

/-- Why nothing can be read from a path where there are no files. -/
def ofPath (path : String) : ReadFailure :=
  if path = "" then .notFound
  else if longestPath < path.utf8ByteSize then .nameTooLong
  else
    match (path.splitOn "/").find? (!alwaysLeads ·) with
    | none => .isDirectory
    | some name => if longestName < name.utf8ByteSize then .nameTooLong else .notFound

end ReadFailure

end BytecodeMachine.CommandLine
