import TagQuery.Disk.Access

/-! What a command may ask of the system that it runs on.

Commands are written against `Host`.  A `Machine` is a system all of whose parts are known: a disk, the
bytes on standard input, the variables of the environment and the account's home directory. -/

namespace TagQuery

/-- Access to the environment, to standard input and to files. -/
class Host (m : Type → Type) where
  variableOf : String → m (Option String)
  /-- The home directory that the system has on record for the account. -/
  accountHome : m (Option String)
  /-- All the bytes on standard input. -/
  input : m ByteArray
  /-- The kind of what a path leads to; `none` if nothing can be found there, for whatever reason. -/
  kindOf : String → m (Option Kind)
  read : String → m (Except AccessError ByteArray)
  /-- Makes one directory, which must not be there, in one that is there. -/
  makeDirectory : String → m (Except AccessError Unit)
  write : String → String → m (Except AccessError Unit)

namespace Host

section

variable {m : Type → Type} [Monad m] [Host m]

/-- Fails with an error, unless the path leads to a directory in spite of it. -/
def unlessDirectory (path : String) (e : AccessError) : m (Except AccessError Unit) := do
  if (← Host.kindOf path) = some .directory then return .ok () else return .error e

/-- Makes a directory, and those that it stands in where they are missing.  Its path comes first. -/
def makeDirectories : List String → m (Except AccessError Unit)
  | [] => return .ok ()
  | path :: outer => do
    match ← Host.makeDirectory path with
    | .ok () => return .ok ()
    | .error .notFound =>
      match ← makeDirectories outer with
      | .error e => return .error e
      | .ok () =>
        match ← Host.makeDirectory path with
        | .ok () => return .ok ()
        | .error e => unlessDirectory path e
    | .error e => unlessDirectory path e

/-- Makes the directories that the end of a path stands in. -/
def makeParents (path : String) : m (Except AccessError Unit) :=
  makeDirectories (Path.outward path).tail

end

end Host

/-- A system all of whose parts are known. -/
structure Machine where
  disk : Disk
  input : ByteArray
  environment : List (String × String)
  accountHome : Option String

namespace Machine

/-- Changes the disk, or gives the reason why it stays as it is. -/
def onDisk (change : Disk → Except AccessError Disk) : StateM Machine (Except AccessError Unit) := do
  let w ← get
  match change w.disk with
  | .ok disk =>
    set { w with disk }
    return .ok ()
  | .error e => return .error e

instance : Host (StateM Machine) where
  variableOf name := do return (← get).environment.lookup name
  accountHome := do return (← get).accountHome
  input := do return (← get).input
  kindOf path := do return (← get).disk.kindOf path
  read path := do return (← get).disk.read path
  makeDirectory path := onDisk fun d => d.makeDirectory path
  write path text := onDisk fun d => d.write path text

/-- Puts a text into a file, and makes the directories that it stands in. -/
def addFile (path text : String) : StateM Machine Unit := do
  let _ ← Host.makeParents path
  let _ ← Host.write path text

end Machine

end TagQuery
