import TagQuery.Command.Run

/-! The program: runs the command line on the system that it is started on. -/

namespace TagQuery

/-- The number of a fault of the system, if it is one about files. -/
def faultNumber : IO.Error → UInt32
  | .noFileOrDirectory _ n _ | .alreadyExists _ n _ | .inappropriateType _ n _
  | .invalidArgument _ n _ => if n < 0x80000000 then n else 0 - n
  | _ => 0

def accessErrorOf (e : IO.Error) : AccessError :=
  match faultNumber e with
  | 2 => .notFound
  | 17 => .alreadyExists
  | 20 => .notADirectory
  | 21 => .isADirectory
  | 36 => .nameTooLong
  | _ => .other (toString e)

/-- The bytes of a stream up to its end, behind those that have been read. -/
partial def readAll (s : IO.FS.Stream) (done : ByteArray) : IO ByteArray := do
  let more ← s.read 65536
  if more.isEmpty then return done else readAll s (done ++ more)

/-- Does something, and gives what it gives or why it failed. -/
def attempt {α : Type} (action : IO α) : IO (Except AccessError α) := do
  match ← action.toBaseIO with
  | .ok a => return .ok a
  | .error e => return .error (accessErrorOf e)

/-- The home directory of the account with this number in a table of accounts. -/
def homeIn (accounts number : String) : Option String :=
  (accounts.splitOn "\n").findSome? fun line =>
    match line.splitOn ":" with
    | _ :: _ :: account :: _ :: _ :: home :: _ =>
      if account == number && !home.isEmpty then some home else none
    | _ => none

/-- The number of the account that the program runs for. -/
def accountNumber (status : String) : Option String :=
  (status.splitOn "\n").findSome? fun line =>
    match line.splitOn "\t" with
    | "Uid:" :: number :: _ => some number
    | _ => none

/-- What a path leads to: with a slash behind it, a path can lead to directories only. -/
def kindAt (path : String) : IO (Option Kind) := do
  match ← (IO.FS.realPath path).toBaseIO with
  | .error _ => return none
  | .ok _ =>
    match ← (IO.FS.realPath (path ++ "/")).toBaseIO with
    | .error _ => return some .other
    | .ok _ => return some .directory

instance : Host IO where
  variableOf name := IO.getEnv name
  accountHome := do
    let status ← (IO.FS.readFile "/proc/self/status").toBaseIO
    let accounts ← (IO.FS.readFile "/etc/passwd").toBaseIO
    return do homeIn (← accounts.toOption) (← accountNumber (← status.toOption))
  input := do readAll (← IO.getStdin) .empty
  kindOf := kindAt
  read path := attempt (IO.FS.readBinFile path)
  makeDirectory path := attempt (IO.FS.createDir path)
  write path text := attempt (IO.FS.writeFile path text)

end TagQuery

def main (words : List String) : IO UInt32 := do
  let outcome ← TagQuery.run words
  IO.print outcome.output
  IO.eprint outcome.errors
  return outcome.exitStatus.toUInt32
