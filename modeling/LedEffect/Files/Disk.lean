import LedEffect.Files.Access
import LedEffect.Files.Path

/-!
# Disks

A file system as plain data: a table from places to files and directories, a place being the names
on the way from the root. Paths are followed part by part, and everything passed through must be a
directory. Operations that fail leave the disk as they found it, except that the directories
created on the way to one that cannot be created remain.
-/

namespace LedEffect

-- Bytes are compared as the core library compares them, whatever else is in scope.
attribute [local instance (2000)] ByteArray.instDecidableEq

/-- What stands at a place. -/
inductive DiskEntry
  | file (bytes : ByteArray)
  | directory
deriving DecidableEq

/-- The names on the way from the root. -/
abbrev Place := List String

/-- A file system with a working directory and a directory for the settings of the user. The root
is always there. -/
structure Disk where
  entries : List (Place × DiskEntry)
  workingDirectory : String
  settingsHome : String

namespace Disk

variable (d : Disk)

def get? (place : Place) : Option DiskEntry :=
  if place = [] then some .directory
  else (d.entries.find? fun entry => entry.1 == place).map (·.2)

/-- The disk with an entry at a place, in the place of an earlier one. -/
def put (place : Place) (entry : DiskEntry) : Disk :=
  { d with entries := d.entries.filter (fun e => e.1 != place) ++ [(place, entry)] }

/-- The disk with an entry at a place and directories on the whole way to it. -/
def install (place : Place) (entry : DiskEntry) : Disk :=
  let directories := ((List.range place.length).drop 1).map place.take
  (directories.foldl (fun d above => d.put above .directory) d).put place entry

/-- The files below a place, with the names on the way from there. -/
def filesBelow (place : Place) : List (Place × ByteArray) :=
  d.entries.filterMap fun (position, entry) =>
    match entry with
    | .file bytes =>
      if place.isPrefixOf position then some (position.drop place.length, bytes) else none
    | .directory => none

def isDirectoryAt (place : Place) : Bool := d.get? place == some .directory

/-! ## Following paths -/

/-- The greatest length of a path and of a name, in bytes. -/
def pathLimit : Nat := 4095

def nameLimit : Nat := 255

/-- Refuses texts that are no path at all. -/
def checkPath (path : String) : Except FileError Unit :=
  if path.toList.contains '\x00' then .error .nulInName
  else if path = "" then .error .notFound
  else if pathLimit < path.utf8ByteSize then .error .nameTooLong
  else .ok ()

/-- Follows one part of a path from a place, which must be a directory. -/
def step (place : Place) (part : List Char) : Except FileError Place :=
  let name := String.ofList part
  if !d.isDirectoryAt place then .error .notDirectory
  else if name = "" ∨ name = "." then .ok place
  else if name = ".." then .ok place.dropLast
  else if nameLimit < name.utf8ByteSize then .error .nameTooLong
  else if (d.get? (place ++ [name])).isSome then .ok (place ++ [name])
  else .error .notFound

/-- The place to which parts lead. -/
def follow (place : Place) (parts : List (List Char)) : Except FileError Place :=
  parts.foldlM d.step place

/-- The place from which a path is followed. -/
def start (path : String) : Except FileError Place :=
  if Path.isAbsolute path then .ok [] else d.follow [] (Path.parts d.workingDirectory)

/-- The place that a path names. -/
def locate (path : String) : Except FileError Place := do
  checkPath path
  d.follow (← d.start path) (Path.parts path)

/-- Where a path would create something: the directory, the name, and whether slashes follow it.
There is no name when the last part is idle or leads upward. -/
structure Target where
  directory : Place
  name : Option String
  slashed : Bool

def target (path : String) : Except FileError Target := do
  checkPath path
  let reversed := (Path.parts path).reverse
  let named := reversed.dropWhile List.isEmpty
  let directory ← d.follow (← d.start path) (named.drop 1).reverse
  if d.isDirectoryAt directory then
    let name := named.head?.bind fun part =>
      let name := String.ofList part
      if name = "." ∨ name = ".." then none else some name
    return ⟨directory, name, reversed.head? == some []⟩
  else .error .notDirectory

/-! ## Operations -/

def isPresent (path : String) : Bool := (d.locate path).toBool

def isDirectory (path : String) : Bool :=
  match d.locate path with
  | .ok place => d.isDirectoryAt place
  | .error _ => false

def isFile (path : String) : Bool := d.isPresent path && !d.isDirectory path

def readText (path : String) : Except FileError String := do
  let place ← d.locate path
  match d.get? place with
  | some (.file bytes) => FileAccess.textOfBytes bytes
  | some .directory => .error .isDirectory
  | none => .error .notFound

def writeText (path text : String) : Except FileError Disk := do
  let t ← d.target path
  match t.name with
  | none => .error .isDirectory
  | some name =>
    if t.slashed then .error .isDirectory
    else if nameLimit < name.utf8ByteSize then .error .nameTooLong
    else if d.isDirectoryAt (t.directory ++ [name]) then .error .isDirectory
    else .ok (d.put (t.directory ++ [name]) (.file text.toUTF8))

/-- Creates one directory in an existing one. -/
def createDirectory (path : String) : Except FileError Disk := do
  let t ← d.target path
  match t.name with
  | none => .error .alreadyExists
  | some name =>
    if nameLimit < name.utf8ByteSize then .error .nameTooLong
    else if (d.get? (t.directory ++ [name])).isSome then .error .alreadyExists
    else .ok (d.put (t.directory ++ [name]) .directory)

/-- Creates a directory, where it is enough that it is there afterwards. -/
def ensureDirectory (path : String) : Except FileError Disk :=
  match d.createDirectory path with
  | .ok d => .ok d
  | .error e => if d.isDirectory path then .ok d else .error e

/-- Creates a directory with the missing ones above it; the fuel bounds the parts of the path. -/
def createDirectories : Nat → Disk → String → Disk × Except FileError Unit
  | 0, d, _ => (d, .error .notFound)
  | fuel + 1, d, path =>
    if path = "" then (d, .ok ())
    else
      match d.createDirectory path, Path.parent? path with
      | .error .notFound, some parent =>
        match createDirectories fuel d parent with
        | (d, .error e) => (d, .error e)
        | (d, .ok ()) =>
          match d.ensureDirectory path with
          | .ok d => (d, .ok ())
          | .error e => (d, .error e)
      | .error .notFound, none => (d, .error .notFound)
      | _, _ =>
        match d.ensureDirectory path with
        | .ok d => (d, .ok ())
        | .error e => (d, .error e)

instance : FileAccess (StateM Disk) where
  readText path := do return (← get).readText path
  writeText path text := do
    match (← get).writeText path text with
    | .ok d => set d; return .ok ()
    | .error e => return .error e
  createDirectories path := do
    let (d, outcome) := createDirectories (path.length + 1) (← get) path
    set d
    return outcome
  isPresent path := do return (← get).isPresent path
  isFile path := do return (← get).isFile path
  workingDirectory := do return (← get).workingDirectory
  settingsHome := do return (← get).settingsHome

end Disk

end LedEffect
