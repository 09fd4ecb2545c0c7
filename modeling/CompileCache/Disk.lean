/-
  CompileCache.Disk — a disk as a map from locations to files and directories.

  A location is where something stands: the names of the directories down to it, and its
  own. The root, at the empty location, is a directory that is always there. A path is what
  is written in a call. It leads from the root to a location, part by part (`step`): an
  empty part and a dot stay where they are, two dots go up, and a name goes down into the
  directory it names. A name at the end of a path need not name anything yet (`target`).

  A call fails with the system's error, and then it has changed nothing.
-/

import CompileCache.Bytes

namespace CompileCache

/-! ## Paths -/

/-- A path as it is written: what stands before, between and after its slashes. -/
structure Path where
  parts : List String
  deriving DecidableEq, Repr

namespace Path

def ofText (s : String) : Path := ⟨s.splitOn "/"⟩

def text (p : Path) : String := "/".intercalate p.parts

/-- Whether the path starts with a slash. -/
def isAbsolute (p : Path) : Bool :=
  match p.parts with
  | "" :: _ :: _ => true
  | _ => false

/-- The path `q` continues `p`, with one slash more if `p` has none at its end. -/
def join (p q : Path) : Path :=
  if q.isAbsolute then q
  else if p.parts.getLast? = some "" then ⟨p.parts.dropLast ++ q.parts⟩
  else ⟨p.parts ++ q.parts⟩

def child (p : Path) (name : String) : Path := p.join ⟨[name]⟩

/-- Whether a part names an entry of a directory. -/
def isName (part : String) : Bool := part ≠ "" && part ≠ "." && part ≠ ".."

def properPrefixes : List String → List (List String)
  | [] => []
  | part :: rest => [] :: (properPrefixes rest).map (part :: ·)

/-- The directories that the path leads through, the last one first. -/
def above (p : Path) : List Path :=
  ((properPrefixes (p.parts.filter fun part => part ≠ "" && part ≠ ".")).map Path.mk).reverse

end Path

/-! ## Disks -/

/-- The failures a superuser meets on a healthy disk. -/
inductive OsError where
  | notFound
  | alreadyExists
  | notADirectory
  | isADirectory
  deriving DecidableEq, Repr

def OsError.message : OsError → String
  | notFound => "No such file or directory (os error 2)"
  | alreadyExists => "File exists (os error 17)"
  | notADirectory => "Not a directory (os error 20)"
  | isADirectory => "Is a directory (os error 21)"

inductive Node where
  | directory
  | file (content : Bytes)
  deriving DecidableEq, Repr

abbrev Location := List String

structure Disk where
  /-- Each location at most once; the root is left out. -/
  nodes : List (Location × Node)
  deriving DecidableEq, Repr, Inhabited

namespace Disk

def empty : Disk := ⟨[]⟩

def get? (d : Disk) (there : Location) : Option Node :=
  if there = [] then some .directory else d.nodes.lookup there

def erase (d : Disk) (there : Location) : Disk := ⟨d.nodes.filter fun n => n.1 ≠ there⟩

def put (d : Disk) (there : Location) (n : Node) : Disk := ⟨(there, n) :: (d.erase there).nodes⟩

/-! ## Following a path -/

def step (d : Disk) (here : Location) (part : String) : Except OsError Location :=
  if !Path.isName part then .ok (if part = ".." then here.dropLast else here)
  else
    match d.get? (here ++ [part]) with
    | some .directory => .ok (here ++ [part])
    | some (.file _) => .error .notADirectory
    | none => .error .notFound

inductive Target where
  /-- A directory, by dots at the end of the path. -/
  | directory (location : Location)
  /-- An entry of a directory, there or not; a slash behind its name asks for a directory. -/
  | entry (location : Location) (slashed : Bool)
  deriving DecidableEq, Repr

/-- Follows the parts of a path; those before the last name must be directories. -/
def follow (d : Disk) (here : Location) : List String → Except OsError Target
  | [] => .ok (.directory here)
  | part :: rest =>
    if Path.isName part && rest.all (· == "") then .ok (.entry (here ++ [part]) (!rest.isEmpty))
    else
      match d.step here part with
      | .error e => .error e
      | .ok next => d.follow next rest

def target (d : Disk) (p : Path) : Except OsError Target := d.follow [] p.parts

/-- The file that a path leads to: where it stands, and what it holds. -/
def fileAt (d : Disk) (p : Path) : Except OsError (Location × Bytes) :=
  match d.target p with
  | .error e => .error e
  | .ok (.directory _) => .error .isADirectory
  | .ok (.entry there slashed) =>
    match d.get? there with
    | none => .error .notFound
    | some .directory => .error .isADirectory
    | some (.file content) => if slashed then .error .notADirectory else .ok (there, content)

/-- Where a file can stand under this path. -/
def placeAt (d : Disk) (p : Path) : Except OsError Location :=
  match d.target p with
  | .error e => .error e
  | .ok (.directory _) => .error .isADirectory
  | .ok (.entry there slashed) =>
    if slashed || d.get? there == some .directory then .error .isADirectory else .ok there

/-- Where the directory stands that a path leads to. -/
def directoryAt? (d : Disk) (p : Path) : Option Location :=
  match d.target p with
  | .error _ => none
  | .ok (.directory there) => some there
  | .ok (.entry there _) => if d.get? there = some .directory then some there else none

/-! ## Calls -/

def read (d : Disk) (p : Path) : Except OsError Bytes := (d.fileAt p).map (·.2)

/-- Makes a file or replaces its content. -/
def write (d : Disk) (p : Path) (content : Bytes) : Except OsError Disk :=
  (d.placeAt p).map fun there => d.put there (.file content)

def unlink (d : Disk) (p : Path) : Except OsError Disk := (d.fileAt p).map fun f => d.erase f.1

/-- Moves a file to another name, over a file that has it. -/
def rename (d : Disk) (p q : Path) : Except OsError Disk :=
  match d.fileAt p, d.placeAt q with
  | .error e, _ => .error e
  | _, .error e => .error e
  | .ok (here, content), .ok there => .ok ((d.erase here).put there (.file content))

def makeDirectory (d : Disk) (p : Path) : Except OsError Disk :=
  match d.target p with
  | .error e => .error e
  | .ok (.directory _) => .error .alreadyExists
  | .ok (.entry there _) =>
    if (d.get? there).isSome then .error .alreadyExists else .ok (d.put there .directory)

/-- Removes a file, or a directory and all that is below it. -/
def removeTree (d : Disk) (p : Path) : Except OsError Disk :=
  match d.directoryAt? p with
  | some there => .ok ⟨d.nodes.filter fun n => !there.isPrefixOf n.1⟩
  | none => d.unlink p

/-! ## Listing -/

/-- A directory by its name and a slash, a file by its name and its size. -/
def describeNode (name : Location) : Node → String
  | .directory => "/".intercalate name ++ "/"
  | .file content => "/".intercalate name ++ "=" ++ toString content.length

/-- Everything below a location, by the rest of its own, in order. -/
def listing (d : Disk) (top : Location) : List String :=
  let below := d.nodes.filter fun n => top.isPrefixOf n.1 && n.1 ≠ top
  (below.map fun n => describeNode (n.1.drop top.length) n.2).mergeSort

end Disk

end CompileCache
