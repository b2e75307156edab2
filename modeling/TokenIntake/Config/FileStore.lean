import TokenIntake.Config.Settings

/-!
# Files of settings

A directory of files under bare names, and the four things done with it: a file is
written, settings are saved to a file or loaded from it, and a file is read. Every bare
name is taken for one that the system allows.
-/

namespace TokenIntake

structure FileStore where
  files : List (String × List UInt8)

namespace FileStore

def empty : FileStore := ⟨[]⟩

def get? (store : FileStore) (file : String) : Option (List UInt8) :=
  List.lookup file store.files

/-- The files of the directory, each under its bare name. -/
def read (store : FileStore) : Files := fun file =>
  match store.get? file with
  | none => .error .noFile
  | some bytes => .ok bytes

/-- Writes a file. What it held before is gone. -/
def put (store : FileStore) (file : String) (bytes : List UInt8) : FileStore :=
  ⟨(file, bytes) :: store.files.filter fun entry => entry.1 ≠ file⟩

/-- Loads settings, in the format that the file name tells unless one is given. -/
def load (store : FileStore) (file : String) (format : Option FileFormat) :
    Except LoadError Settings :=
  Settings.loadAs store.read file (format.getD (.ofName file))

/-- Saves settings as JSON, whatever the name of the file. -/
def save (store : FileStore) (file : String) (settings : Settings) : FileStore :=
  store.put file (Utf8.ofString settings.write)

def readText (store : FileStore) (file : String) : Except LoadError String :=
  match store.read file with
  | .error error => .error error
  | .ok bytes =>
    match Utf8.decodeString bytes with
    | some text => .ok text
    | none => .error .notUtf8

inductive Step where
  | write (file : String) (bytes : List UInt8)
  | load (file : String) (format : Option FileFormat)
  | save (file : String) (settings : Settings)
  | read (file : String)

inductive Outcome where
  | done
  | settings (value : Settings)
  | text (value : String)
  | failed (error : LoadError)

def after (store : FileStore) : Step → FileStore
  | .write file bytes => store.put file bytes
  | .load _ _ => store
  | .save file settings => store.save file settings
  | .read _ => store

def answer (store : FileStore) : Step → Outcome
  | .write _ _ => .done
  | .load file format =>
    match store.load file format with
    | .ok settings => .settings settings
    | .error error => .failed error
  | .save _ _ => .done
  | .read file =>
    match store.readText file with
    | .ok text => .text text
    | .error error => .failed error

def session (store : FileStore) : List Step → List Outcome
  | [] => []
  | step :: rest => store.answer step :: (store.after step).session rest

@[simp] theorem get?_put_self (store : FileStore) (file : String) (bytes : List UInt8) :
    (store.put file bytes).get? file = some bytes := by
  simp [put, get?]

end FileStore

end TokenIntake
