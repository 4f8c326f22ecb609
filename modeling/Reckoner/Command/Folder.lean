import Reckoner.Command.Path

/-!
# Looking up files

A command looks up one path and finds nothing, a directory or a file. Besides the file
system, a folder given as a list of files may be looked up: each file has a relative name,
and the directories are those that lie on the way to a file.
-/

namespace Reckoner.Command

/-- What a path leads to. -/
inductive Found where
  | nothing
  | directory
  | file (bytes : ByteArray)

/-- Files by the components of their names. -/
abbrev Folder := List (List String × ByteArray)

namespace Folder

/-- A folder of files with the given names. -/
def ofFiles (files : List (String × ByteArray)) : Folder :=
  files.map fun file => ((Path.ofString file.1).components, file.2)

/-- A file lies somewhere below the directory. -/
def isDirectory (folder : Folder) (name : List String) : Bool :=
  name.isEmpty || folder.any fun file => name.isPrefixOf file.1 && name != file.1

/-- What a name without steps upwards leads to. -/
def entry (folder : Folder) (name : List String) : Found :=
  match folder.lookup name with
  | some bytes => .file bytes
  | none => if folder.isDirectory name then .directory else .nothing

/-- Follows components from a directory, whose own name is given innermost component first. -/
def follow (folder : Folder) : List String → List String → Found
  | here, [] => folder.entry here.reverse
  | here, step :: rest =>
    if folder.isDirectory here.reverse then
      match step, here with
      | "..", [] => if rest.isEmpty then .directory else .nothing
      | "..", _ :: above => follow folder above rest
      | name, _ => follow folder (name :: here) rest
    else .nothing

/-- Looks up a path from inside the folder; of what is outside, only directories are known. -/
def look (folder : Folder) (path : Path) : Found :=
  if path.root = "" then folder.follow [] path.components
  else if path.components = [] then .directory
  else .nothing

end Folder

end Reckoner.Command
