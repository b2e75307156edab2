import TokenIntake.Toml.Value

/-!
# Documents of TOML

A document is read line by line into the table of the last header. When the next
header comes, that table is put into its place. A table may be made only once: by a
header, or by the dotted keys of one table.
-/

namespace TokenIntake.Toml

/-- Changes the table at the end of a path. Tables that are not there yet are made on
the way; of an array of tables the last element is meant. A dotted key does not pass
through tables that have a header. -/
def changeAt (byKey : Bool) (change : TableOrigin → Members → Option Members) :
    List String → TableOrigin → Members → Option Members
  | [], origin, members => change origin members
  | name :: rest, _, members =>
    match lookup name members with
    | none => do
      let origin := if byKey then TableOrigin.dottedKey else .longerHeader
      let inner ← changeAt byKey change rest origin []
      some (set name (.table origin inner) members)
    | some (.table origin inner) =>
      if byKey && origin == .header then none
      else do
        let inner ← changeAt byKey change rest origin inner
        some (set name (.table origin inner) members)
    | some (.tables elements) =>
      match elements.reverse with
      | [] => none
      | last :: before => do
        let last ← changeAt byKey change rest .header last
        some (set name (.tables (before.reverse ++ [last])) members)
    | some _ => none

/-- The table that lines are read into, and all tables before it. -/
structure Draft where
  root : Members
  path : List String
  isElement : Bool
  current : Members

namespace Draft

/-- Lines before the first header belong to the document itself. -/
def start : Draft := ⟨[], [], false, []⟩

def addEntry (draft : Draft) (path : List String) (value : Toml) : Option Draft := do
  let name ← path.getLast?
  let outer := path.dropLast
  -- A dotted key adds to no table but those that dotted keys made.
  let add (origin : TableOrigin) (members : Members) : Option Members :=
    if (origin == .dottedKey) == outer.isEmpty then none else insertNew? name value members
  let current ← changeAt true add outer .header draft.current
  some { draft with current }

/-- The last table of an array of tables is added to the array. -/
def addElement (name : String) (element : Members) (_ : TableOrigin) (members : Members) :
    Option Members :=
  match lookup name members with
  | none => some (set name (.tables [element]) members)
  | some (.tables elements) => some (set name (.tables (elements ++ [element])) members)
  | some _ => none

/-- All tables, the current one put into its place. -/
def close (draft : Draft) : Option Members :=
  match draft.path.getLast? with
  | none => some draft.current
  | some name =>
    if draft.isElement then
      changeAt false (addElement name draft.current) draft.path.dropLast .header draft.root
    else
      changeAt false (fun _ => insertNew? name (.table .header draft.current))
        draft.path.dropLast .header draft.root

/-- The members at the end of a path, as `changeAt` finds them. -/
def membersAt : List String → Members → Members
  | [], members => members
  | name :: rest, members =>
    match lookup name members with
    | some (.table _ inner) => membersAt rest inner
    | some (.tables elements) => membersAt rest (elements.getLast?.getD [])
    | _ => []

/-- Begins the table of a header. One that longer headers made already is gone on with. -/
def openTable (draft : Draft) (path : List String) : Option Draft := do
  let root ← draft.close
  let name ← path.getLast?
  let outer := path.dropLast
  match lookup name (membersAt outer root) with
  -- The table is taken out, since closing the draft puts it back.
  | some (.table .longerHeader inner) =>
    let root ← changeAt false (fun _ members => some (erase name members)) outer .header root
    some ⟨root, path, false, inner⟩
  | some _ => none
  | none =>
    let root ← changeAt false (fun _ members => some members) outer .header root
    some ⟨root, path, false, []⟩

/-- Begins a new element of an array of tables. -/
def openElement (draft : Draft) (path : List String) : Option Draft := do
  let root ← draft.close
  let name ← path.getLast?
  let check (_ : TableOrigin) (members : Members) : Option Members :=
    match lookup name members with
    | none => some (set name (.tables []) members)
    | some (.tables _) => some members
    | some _ => none
  let root ← changeAt false check path.dropLast .header root
  some ⟨root, path, true, []⟩

end Draft

inductive Line where
  | blank
  | entry (path : List String) (value : Toml)
  | header (path : List String)
  | element (path : List String)

namespace Line

def apply (line : Line) (draft : Draft) : Option Draft :=
  match line with
  | blank => some draft
  | entry path value => draft.addEntry path value
  | header path => draft.openTable path
  | element path => draft.openElement path

end Line

namespace Lexer

def header : Lexer Line := do
  match ← maybe (word ['[', '[']) with
  | some () => do
    let path ← key
    word [']', ']']
    lineRest
    pure (.element path)
  | none => do
    char '['
    let path ← key
    char ']'
    lineRest
    pure (.header path)

/-- A key and its value on a line. -/
def entryLine : Lexer Line := do
  let path ← key
  char '='
  blanks
  let found ← value maxDepth
  lineRest
  pure (.entry path found)

/-- A line and the blanks in front of the next. -/
def line : Lexer Line := do
  let found ← match ← peek with
    | some '#' => do
      comment
      lineEnd
      pure .blank
    | some '\n' => do newline; pure .blank
    | some '\r' => do newline; pure .blank
    | some '[' => header
    | some _ => entryLine
    | none => failure
  blanks
  pure found

def lines : Lexer (List Line) := do
  blanks
  let found ← many line
  atEnd
  pure found

end Lexer

/-- The members of a document. A byte order mark in front of it does not count. -/
def parse (text : String) : Option Members := do
  let chars := match text.toList with
    | '\uFEFF' :: rest => rest
    | chars => chars
  let (lines, _) ← Lexer.lines chars
  let draft ← lines.foldlM (fun draft line => line.apply draft) Draft.start
  draft.close

end TokenIntake.Toml
