import TermScene.Files.Path

/-!
# Files

How files are looked at, and file trees held in memory that can be looked at in
the same way. A tree hangs below a working directory that has no name of its own,
so that no path leads out of it and back again.
-/

namespace TermScene

/-- Why a file cannot be read as text. -/
inductive ReadFault where
  | notFound
  | notDirectory
  | isDirectory
  | notText
  | other (message : Text)
  deriving Repr, DecidableEq

def ReadFault.message : ReadFault → Text
  | notFound => "No such file or directory (os error 2)".toList
  | notDirectory => "Not a directory (os error 20)".toList
  | isDirectory => "Is a directory (os error 21)".toList
  | notText => "stream did not contain valid UTF-8".toList
  | other message => message

/-- How files are looked at, by path. -/
structure Files (m : Type → Type) where
  read : Text → m (Except ReadFault ByteArray)
  isFile : Text → m Bool

/-- The text that bytes encode in UTF-8. -/
def Files.decode (bytes : ByteArray) : Except ReadFault Text :=
  match String.fromUTF8? bytes with
  | some s => .ok s.toList
  | none => .error .notText

inductive FileEntry where
  | file (bytes : ByteArray)
  | directory

/-- Files and empty directories by their paths from the working directory. Every
place that a path leads through is a directory; of two entries at one place the
later counts. -/
structure FileTree where
  entries : List (Text × FileEntry)

namespace FileTree

/-- The working directory, as the name before all names of entries. -/
def here : Text := ['.']

/-- What stands at a place, counted from the root. -/
def entryAt (tree : FileTree) (place : List Text) : Option FileEntry :=
  if place = [] ∨ place = [here] then some .directory
  else
    let trails := tree.entries.reverse.map fun (path, entry) =>
      (Path.trail [here] (Path.names path), entry)
    match trails.find? fun (trail, _) => trail.getLast? == some place with
    | some (_, entry) => some entry
    | none => if trails.any fun (trail, _) => trail.contains place then some .directory else none

/-- Follows names from a place on. -/
def follow (tree : FileTree) (place : List Text) : List Text → Except ReadFault FileEntry
  | [] =>
    match tree.entryAt place with
    | some entry => .ok entry
    | none => .error .notFound
  | name :: more =>
    match tree.entryAt place with
    | none => .error .notFound
    | some (.file _) => .error .notDirectory
    | some .directory => tree.follow (Path.step place name) more

/-- What a path leads to. -/
def lookUp (tree : FileTree) (path : Text) : Except ReadFault FileEntry :=
  match path with
  | [] => .error .notFound
  | '/' :: _ => tree.follow [] (Path.names path)
  | _ => tree.follow [here] (Path.names path)

def files (tree : FileTree) : Files Id where
  read path :=
    match tree.lookUp path with
    | .ok (.file bytes) => .ok bytes
    | .ok .directory => .error .isDirectory
    | .error fault => .error fault
  isFile path :=
    match tree.lookUp path with
    | .ok (.file _) => true
    | _ => false

end FileTree

end TermScene
