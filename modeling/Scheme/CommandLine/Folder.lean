import Scheme.Text.Quoted
import Scheme.Text.Utf8

/-!
# Files and folders

Source files are found by name in a folder, once the name is in its plain form.
-/

namespace Scheme.CommandLine

open Scheme.Text

/-- Why a file cannot be read as text. -/
inductive ReadFault where
  | missing
  | denied
  | notAFolder
  | isFolder
  | undecodable (fault : Utf8.Fault)

/-- The parts of a name between slashes. -/
def parts (name : String) : List String :=
  let rec go (part : List Char) : List Char → List String
    | [] => [String.ofList part.reverse]
    | '/' :: rest => String.ofList part.reverse :: go [] rest
    | c :: rest => go (c :: part) rest
  go [] name.toList

/-- The parts that lead somewhere. -/
def steps (name : String) : List String :=
  (parts name).filter fun part => part ≠ "" ∧ part ≠ "."

/-- What an absolute name starts with: one slash, or exactly two. -/
def rootOf (name : String) : String :=
  match name.toList with
  | '/' :: '/' :: '/' :: _ => "/"
  | '/' :: '/' :: _ => "//"
  | '/' :: _ => "/"
  | _ => ""

def plainName (name : String) : String :=
  let plain := rootOf name ++ "/".intercalate (steps name)
  if plain = "" then "." else plain

/-- The text that says why the file of a name cannot be read. -/
def ReadFault.message (name : String) : ReadFault → String
  | .missing => "[Errno 2] No such file or directory: " ++ quoted (plainName name)
  | .denied => "[Errno 13] Permission denied: " ++ quoted (plainName name)
  | .notAFolder => "[Errno 20] Not a directory: " ++ quoted (plainName name)
  | .isFolder => "[Errno 21] Is a directory: " ++ quoted (plainName name)
  | .undecodable fault => fault.text

/-- The files below a folder, by name, and folders that may be empty. -/
structure Folder where
  files : List (String × ByteArray) := []
  folders : List String := []

namespace Folder

/-- A place that a name can lead to: below the folder, by the steps to it, or out of it. -/
inductive Location where
  | inside (path : List String)
  | outside

def file? (f : Folder) (path : List String) : Option ByteArray :=
  (f.files.find? fun entry => steps entry.1 == path).map Prod.snd

/-- A folder is there if it is named or holds something. -/
def hasFolder (f : Folder) (path : List String) : Bool :=
  path.isEmpty || f.folders.any (fun name => path.isPrefixOf (steps name)) ||
    f.files.any fun entry => path.isPrefixOf (steps entry.1) && steps entry.1 != path

/-- Follows the steps of a name. Nothing is known of what lies outside. -/
def follow (f : Folder) : Location → List String → Except ReadFault ByteArray
  | .outside, [] => .error .isFolder
  | .outside, step :: rest => if step = ".." then f.follow .outside rest else .error .missing
  | .inside path, [] => if f.hasFolder path then .error .isFolder else
      match f.file? path with
      | some bytes => .ok bytes
      | none => .error .missing
  | .inside path, step :: rest =>
    if f.hasFolder path then
      if step ≠ ".." then f.follow (.inside (path ++ [step])) rest
      else if path.isEmpty then f.follow .outside rest
      else f.follow (.inside path.dropLast) rest
    else .error (if (f.file? path).isSome then .notAFolder else .missing)

def read (f : Folder) (name : String) : Except ReadFault ByteArray :=
  f.follow (if rootOf name = "" then .inside [] else .outside) (steps name)

end Folder

end Scheme.CommandLine
