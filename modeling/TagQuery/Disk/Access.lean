import TagQuery.Disk.Walk

/-! Reading and writing.

An operation gives the disk as it leaves it, or the reason why nothing was done. -/

namespace TagQuery.Disk

/-- The kind of what stands where a path leads to, if something does. -/
def kindOf (d : Disk) (path : String) : Option Kind :=
  match d.find path with
  | .ok .directory => some .directory
  | .ok (.file _) => some .other
  | .error _ => none

def read (d : Disk) (path : String) : Except AccessError ByteArray :=
  match d.find path with
  | .ok (.file content) => .ok content
  | .ok .directory => .error .isADirectory
  | .error e => .error e

def makeDirectory (d : Disk) (path : String) : Except AccessError Disk :=
  match resolved : d.resolve path with
  | .error e => .error e
  | .ok l =>
    match free : d.lookup l with
    | some _ => .error .alreadyExists
    | none => .ok (d.insert l .directory (free_of_resolve resolved (by simp [free])))

/-- Why nothing can be written to a path of a directory.  A slash at its end is refused before anything is
looked for behind the last name; a point at its end stands in a directory that has to be there. -/
def refusal (d : Disk) (path : String) : AccessError :=
  let parts := Path.parts path
  match d.walk path (if Path.endsInPoint path then parts else parts.dropLast) with
  | .error e => e
  | .ok l =>
    match d.lookup l with
    | none => .notFound
    | some (.file _) => .notADirectory
    | some .directory => .isADirectory

/-- Puts a text into a file, which need not be there before. -/
def write (d : Disk) (path text : String) : Except AccessError Disk :=
  if Path.wantsDirectory path then .error (d.refusal path)
  else
    match resolved : d.resolve path with
    | .error e => .error e
    | .ok l =>
      match found : d.lookup l with
      | some .directory => .error .isADirectory
      | some (.file _) => .ok (d.insert l (.file text.toUTF8) (free_of_resolve resolved (by simp [found])))
      | none => .ok (d.insert l (.file text.toUTF8) (free_of_resolve resolved (by simp [found])))

end TagQuery.Disk
