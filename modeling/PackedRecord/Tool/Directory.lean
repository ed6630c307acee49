import PackedRecord.FileError
import PackedRecord.Text.Split

/-! # Directories — the files that a tool can see

    A directory holds files by their places, the steps that lead to them.  A
    path is followed part by part between its slashes, and every part has to
    stand in a folder: an empty one and a single dot stay there, two dots lead
    to the folder above, anything else is a name.  Folders are the directory
    itself, what lies above it, whatever a file or a folder lies in, and what
    is listed as one. -/

namespace PackedRecord.Tool

/-- Files by their places, and folders that may be empty. -/
structure Directory where
  files : List (List String × ByteArray)
  folders : List (List String) := []

namespace Directory

/-! ## Paths -/

/-- The parts of a path between its slashes. -/
def parts (path : String) : List String :=
  (Text.splitAt '/' path.toList).map String.ofList

/-- The parts of a path that leads to a file which may be missing.  If it ends
    in a slash, it leads to no file, and its last name does not count. -/
def targetParts (path : String) : List String :=
  if (parts path).getLast? = some "" then
    ((parts path).reverse.dropWhile (· = "")).tail.reverse ++ [""]
  else parts path

/-- Where a path begins: in the directory, or at the root. -/
def origin (path : String) : List String :=
  if path.toList.head? = some '/' then ["/"] else []

/-- The folder above a folder; the root is its own. -/
def above (place : List String) : List String :=
  if place = ["/"] then place
  else if place.all (· = "..") then place ++ [".."]
  else place.dropLast

/-- Where a part of a path leads from a folder. -/
def onward (place : List String) (part : String) : List String :=
  if part = "" ∨ part = "." then place
  else if part = ".." then above place
  else place ++ [part]

def nameLimit : Nat := 255

def pathLimit : Nat := 4095

/-- The place of a path whose folders all exist. -/
def steps (path : String) : List String :=
  (parts path).foldl onward (origin path)

/-! ## Files and folders -/

def find? (d : Directory) (place : List String) : Option ByteArray :=
  d.files.lookup place

def isFolder (d : Directory) (place : List String) : Bool :=
  place.all (fun step => step = ".." || step = "/") || d.folders.any (place.isPrefixOf ·)
    || d.files.any fun file => place.isPrefixOf file.1 && place ≠ file.1

/-- Where a part of a path leads from a place, which has to be a folder. -/
def enter (d : Directory) (place : List String) (part : String) :
    Except FileError (List String) :=
  if d.isFolder place then
    if nameLimit < part.utf8ByteSize then .error .nameTooLong else .ok (onward place part)
  else if (d.find? place).isSome then .error .notDirectory
  else .error .notFound

/-- Follows parts of a path from where it begins. -/
def follow (d : Directory) (path : String) (parts : List String) :
    Except FileError (List String) :=
  if path = "" then .error .notFound
  else if pathLimit < path.utf8ByteSize then .error .nameTooLong
  else parts.foldlM d.enter (origin path)

/-- The content of the file that a path denotes. -/
def read (d : Directory) (path : String) : Except FileError ByteArray := do
  let place ← d.follow path (parts path)
  match d.find? place with
  | some content => .ok content
  | none => .error (if d.isFolder place then .isDirectory else .notFound)

def readText (d : Directory) (path : String) : Except FileError String :=
  (d.read path).bind decodeText

/-- With the given file in place of the one before, if there was one. -/
def put (d : Directory) (place : List String) (content : ByteArray) : Directory :=
  { d with files := (place, content) :: d.files.filter (·.1 ≠ place) }

/-- The directory after a text was written to the file that a path denotes,
    which need not be there before. -/
def writeText (d : Directory) (path : String) (text : String) : Except FileError Directory := do
  let place ← d.follow path (targetParts path)
  if d.isFolder place then .error .isDirectory else .ok (d.put place text.toUTF8)

/-- The files that are not in the directory before, or not with this
    content. -/
def changesSince (after before : Directory) : List (String × ByteArray) :=
  (after.files.filter fun file =>
      (before.find? file.1).map (·.data) ≠ some file.2.data).map fun file =>
    ("/".intercalate file.1, file.2)

end Directory

end PackedRecord.Tool
