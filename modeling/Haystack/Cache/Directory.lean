import Haystack.Bytes
import Haystack.Error
import Haystack.Table

/-!
# Directories

A directory holds files and folders by name. It may itself be missing, and then nothing can be
written to it and there is nothing to read. Of what is in a folder nothing is known, but a folder
goes with all that is in it. What happens to files and folders elsewhere changes a directory only
if its own place or a name in it is concerned.
-/

namespace Haystack

/-- What a name in a directory stands for. -/
inductive DirectoryItem where
  | file (contents : Bytes)
  | folder
  deriving DecidableEq, Repr, Inhabited

def DirectoryItem.isFile : DirectoryItem → Bool
  | .file _ => true
  | .folder => false

/-- The items of a directory, or nothing if there is no directory. -/
abbrev Directory := Option (Table String DirectoryItem)

namespace Directory

def find? (directory : Directory) (name : String) : Option DirectoryItem :=
  directory.bind fun items => items.find? name

def read? (directory : Directory) (name : String) : Option Bytes :=
  match find? directory name with
  | some (.file contents) => some contents
  | _ => none

/-- The directory after writing a file, in place of the file of that name if there is one. -/
def write (directory : Directory) (name : String) (contents : Bytes) : Except Error Directory :=
  match directory with
  | none => .error (.file .noDirectory)
  | some items =>
    if items.find? name = some .folder then .error (.file .isDirectory)
    else .ok (some (items.insert name (.file contents)))

/-- The directory without a file; a folder of that name stays. -/
def delete (directory : Directory) (name : String) : Directory :=
  if (find? directory name).any DirectoryItem.isFile then directory.map (·.erase name)
  else directory

/-- The directory without its files, made if there was none. -/
def swept (directory : Directory) : Directory :=
  some ((directory.getD []).filter fun item => !item.2.isFile)

/-- The directory after making the folder at a path in it, together with all folders on the way,
unless a file has the name of one of them. -/
def makeFolder (directory : Directory) : (path : List String) → Directory
  | [] => some (directory.getD [])
  | name :: _ =>
    if (find? directory name).any DirectoryItem.isFile then directory
    else some ((directory.getD []).insert name .folder)

def removeFolder (directory : Directory) : (path : List String) → Directory
  | [] => none
  | [name] =>
    if find? directory name = some .folder then directory.map (·.erase name) else directory
  | _ :: _ :: _ => directory

end Directory

/-- A change to the folder at a path or to a file in it. -/
inductive FolderChange where
  /-- Makes the folder and all on the way to it. -/
  | make
  /-- Removes the folder and all that is in it. -/
  | remove
  | write (name : String) (contents : Bytes)
  | delete (name : String)
  deriving DecidableEq, Repr

namespace Directory

/-- The directory at `place` after a change to the folder at `path`. A change that cannot be made
is none. -/
def after (change : FolderChange) (place path : List String) (directory : Directory) : Directory :=
  if place.isPrefixOf path then
    let below := path.drop place.length
    match change with
    | .make => directory.makeFolder below
    | .remove => directory.removeFolder below
    | .write name contents =>
      if below.isEmpty then (directory.write name contents).toOption.getD directory else directory
    | .delete name => if below.isEmpty then directory.delete name else directory
  else if change = .remove ∧ path.isPrefixOf place then none
  else directory

/-- The directory at `place` after files have been put at paths, with the folders that they need. -/
def holding (place : List String) (files : List (List String × Bytes)) : Directory :=
  files.foldl (fun directory file =>
    let folder := file.1.dropLast
    (directory.after .make place folder).after (.write (file.1.getLastD "") file.2) place folder)
    none

end Directory

end Haystack
