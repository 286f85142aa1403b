import TapeMachine.Bindings

/-! Files by path. A path is followed name by name from the folder it starts in; only folders lead
on, and a slash at the end asks for one. -/

namespace TapeMachine.CommandLine

inductive Closed where
  | missing
  | notFolder
  | nameTooLong
  deriving DecidableEq

def Closed.message : Closed → Text
  | missing => text "no such file or directory"
  | notFolder => text "not a directory"
  | nameTooLong => text "file name too long"

inductive Source where
  | closed (reason : Closed)
  | folder
  | file (content : Text)
  deriving DecidableEq

structure Folder where
  files : Bindings Text

namespace Folder

/-- Where following a path has led: to the folder itself, to one outside, or to a file. -/
inductive Place where
  | here
  | outside
  | file (content : Text)

def nameLimit : Nat := 255

def pathLimit : Nat := 4095

/-- The names of a path, which are empty around a slash at its ends and between two slashes. -/
def names : Text → List Text
  | [] => [[]]
  | b :: rest =>
      match names rest with
      | name :: more => if b = byte '/' then [] :: name :: more else (b :: name) :: more
      | [] => [[b]]

/-- Follows one name. An empty one asks for a folder and stays there. -/
def step (f : Folder) (place : Place) (name : Text) : Except Closed Place :=
  match place with
  | .file _ => .error .notFolder
  | .here =>
      if nameLimit < name.length then .error .nameTooLong
      else if name.isEmpty || name = text "." then .ok .here
      else if name = text ".." then .ok .outside
      else match f.files.get? name with
        | some content => .ok (.file content)
        | none => .error .missing
  | .outside =>
      if nameLimit < name.length then .error .nameTooLong
      else if name.isEmpty || name = text "." || name = text ".." then .ok .outside
      else .error .missing

/-- What a path leads to from this folder, or from the outermost one if it starts with a slash. -/
def source (f : Folder) (path : Text) : Source :=
  if path.isEmpty then .closed .missing
  else if pathLimit < path.length then .closed .nameTooLong
  else
    let start := if path.head? = some (byte '/') then .outside else .here
    match (names path).foldlM f.step start with
    | .error reason => .closed reason
    | .ok (.file content) => .file content
    | .ok _ => .folder

end Folder

end TapeMachine.CommandLine
