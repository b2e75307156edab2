import TokenIntake.Config.FileStore
import TokenIntake.Text.Parts

/-!
# Paths

A path is a list of names between slashes, followed name by name from the working
directory. Of all files only those of the working directory are known, so a path that
leaves it finds directories at most. A bare name leads to the file of that name.
-/

namespace TokenIntake

namespace Path

/-- The names of a path. Two slashes in a row have an empty name between them. -/
def names (path : String) : List String :=
  (Parts.split '/' path.toList).map String.ofList

/-- A name that stands for the directory it is looked up in. -/
def isHere (name : String) : Bool := name.isEmpty || name == "."

/-- The last name that leads on, or no name at all. -/
def lastName (path : String) : String :=
  ((names path).filter fun name => !isHere name).getLast?.getD ""

def maxNameSize : Nat := 255

def maxSize : Nat := 4095

/-- How far a path has led: to the working directory, to a directory that contains it,
or to a file of the working directory. -/
inductive Place where
  | working
  | above
  | file (bytes : List UInt8)

namespace Place

/-- Where a name leads from a place. Nothing is looked up in a file. -/
def enter (store : FileStore) (place : Place) (name : String) : Except LoadError Place :=
  match place with
  | file _ => .error .notDirectory
  | place =>
    if isHere name then .ok place
    else if name = ".." then .ok above
    else if maxNameSize < name.utf8ByteSize then .error .nameTooLong
    else
      -- Outside the working directory no file is known.
      match place, store.get? name with
      | working, some bytes => .ok (.file bytes)
      | _, _ => .error .noFile

def read : Place → Except LoadError (List UInt8)
  | file bytes => .ok bytes
  | working => .error .isDirectory
  | above => .error .isDirectory

end Place

/-- Where a path begins: with a slash in front it does not depend on the directory. -/
def start (path : String) : Place :=
  if path.toList.head? = some '/' then .above else .working

end Path

/-- Follows a path through a directory and reads what is there. -/
def FileStore.bytesAt (store : FileStore) : Files := fun path =>
  if path.isEmpty then .error .noFile
  else if Path.maxSize < path.utf8ByteSize then .error .nameTooLong
  else (Path.names path).foldlM (Path.Place.enter store) (Path.start path) >>= Path.Place.read

/-- The format that the last name of a path tells. -/
def FileFormat.ofPath (path : String) : FileFormat := ofName (Path.lastName path)

/-- Settings from what is read under a path, in the format that its last name tells. -/
def Settings.loadFrom (files : Files) (path : String) : Except LoadError Settings :=
  loadAs files path (.ofPath path)

/-! ## Bare names -/

/-- A name of a file of the working directory that the system allows. -/
structure Path.Bare (name : String) : Prop where
  noSlash : '/' ∉ name.toList
  leads : Path.isHere name = false
  inside : name ≠ ".."
  short : name.utf8ByteSize ≤ Path.maxNameSize

namespace Path.Bare

variable {name : String} (bare : Bare name)
include bare

theorem names_eq : names name = [name] := by
  simp [names, Parts.split_of_notMem bare.noSlash]

theorem lastName_eq : lastName name = name := by
  simp [lastName, bare.names_eq, bare.leads]

theorem start_eq : start name = .working := by
  cases chars : name.toList with
  | nil => simp [start, chars]
  | cons c rest =>
    have differs : c ≠ '/' := by
      rintro rfl
      exact bare.noSlash (by simp [chars])
    simp [start, chars, differs]

/-- The path of a bare name leads to the file that the directory has under it. -/
theorem bytesAt_eq (store : FileStore) : store.bytesAt name = store.read name := by
  have nonempty : name.isEmpty = false := by
    have leads := bare.leads
    rw [isHere, Bool.or_eq_false_iff] at leads
    exact leads.1
  have fits : ¬ maxSize < name.utf8ByteSize :=
    Nat.not_lt_of_le (Nat.le_trans bare.short (by decide))
  have fitsName : ¬ maxNameSize < name.utf8ByteSize := Nat.not_lt_of_le bare.short
  cases found : store.get? name <;>
    simp [FileStore.bytesAt, FileStore.read, nonempty, fits, bare.names_eq, bare.start_eq,
      Place.enter, bare.leads, bare.inside, fitsName, found, Place.read, bind, Except.bind, pure,
      Except.pure]

/-- Settings under a bare name are those that are loaded from the directory. -/
theorem loadFrom_eq (store : FileStore) :
    Settings.loadFrom store.bytesAt name = store.load name none := by
  rw [Settings.loadFrom, FileFormat.ofPath, bare.lastName_eq, Settings.loadAs, bare.bytesAt_eq]
  rfl

end Path.Bare

end TokenIntake
