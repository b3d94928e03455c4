import CssValues.Entries
import CssValues.Error

/-!
# A working directory

The files and folders that log files are written to. Paths are relative; one that leads out of the
directory is accepted, but what is written there is not kept.
-/

namespace CssValues

/-- The files of a directory with their contents, and its folders, all by their normal paths. -/
structure Directory where
  files : Entries Text
  folders : List Text

namespace Directory

def empty : Directory := ⟨[], []⟩

inductive Place where
  /-- Somewhere in the directory; no names stand for the directory itself. -/
  | inside (names : List Text)
  | outside
  deriving DecidableEq

def Place.step (place : Place) (name : Text) : Place :=
  match place with
  | .outside => .outside
  | .inside names =>
    if name.isEmpty || name = ['.'] then .inside names
    else if name = ['.', '.'] then if names.isEmpty then .outside else .inside names.dropLast
    else .inside (names ++ [name])

def locate (path : Text) : Place :=
  match path with
  | '/' :: _ => .outside
  | _ => (Text.splitWhere (· == '/') path).foldl Place.step (.inside [])

/-- The path of names in its normal form. -/
def joinNames (names : List Text) : Text := Text.join ['/'] names

def isFile (d : Directory) (names : List Text) : Bool := (d.files.get? (joinNames names)).isSome

def isFolder (d : Directory) (names : List Text) : Bool :=
  names.isEmpty || d.folders.contains (joinNames names)

/-- What a path says before its last slash. -/
def parent (path : Text) : Text :=
  let upToSlash := (path.reverse.dropWhile (· != '/')).reverse
  let trimmed := (upToSlash.reverse.dropWhile (· == '/')).reverse
  if trimmed.isEmpty then upToSlash else trimmed

def withFolder (d : Directory) (names : List Text) : Directory :=
  if d.isFolder names then d else { d with folders := d.folders ++ [joinNames names] }

/-- The beginnings of a path up to the end of each name. -/
def beginnings (path : Text) : List Text :=
  let parts := Text.splitWhere (· == '/') path
  (List.range parts.length).filterMap fun i =>
    match parts[i]? with
    | some (_ :: _) => some (joinNames (parts.take (i + 1)))
    | _ => none

/-- Whether a path has a null character, with which nothing can be made. -/
def hasNull (path : Text) : Bool := path.contains (Char.ofNat 0)

/-- Make the folders that these paths lead to, one after the other. A file is in the way of a
folder, and of what is below it; the folders before it are made all the same. -/
def makeFolders (d : Directory) : List Text → Directory × Except Error Unit
  | [] => (d, .ok ())
  | path :: rest =>
    if hasNull path then (d, .error .nullInPath)
    else
      match locate path with
      | .outside => makeFolders d rest
      | .inside names =>
        if d.isFile names then
          match rest with
          | [] => (d, .error (.fileExists path))
          | next :: _ => (d, .error (if hasNull next then .nullInPath else .notFolder next))
        else makeFolders (d.withFolder names) rest

/-- Make the folder that a path leads to, and the folders on the way to it. -/
def makeFolderAt (d : Directory) (path : Text) : Directory × Except Error Unit :=
  d.makeFolders (beginnings path)

/-- Open a file for writing at its end, and make it if need be. -/
def openFile (d : Directory) (path : Text) : Except Error Directory :=
  if hasNull path then .error .nullInPath
  else
    match locate path with
    | .outside => .ok d
    | .inside names =>
      if d.isFolder names then .error (.isFolder path)
      else if d.isFile names then .ok d
      else .ok { d with files := d.files.put (joinNames names) [] }

def append (d : Directory) (path : Text) (t : Text) : Directory :=
  match locate path with
  | .outside => d
  | .inside names =>
    match d.files.get? (joinNames names) with
    | some content => { d with files := d.files.put (joinNames names) (content ++ t) }
    | none => d

end Directory

end CssValues
