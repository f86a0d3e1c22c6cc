/-! Paths.

A path is a text with slashes between its parts.  Empty parts and single points mean nothing, except that at
the end they ask for a directory. -/

namespace TagQuery.Path

/-- What stands between slashes. -/
def segments (path : String) : List String :=
  (split path.toList).map String.ofList
where
  split : List Char → List (List Char)
    | [] => [[]]
    | c :: cs =>
      match split cs with
      | [] => [[c]]
      | s :: ss => if c = '/' then [] :: s :: ss else (c :: s) :: ss

/-- The segment asks for nothing new. -/
def isIdle (segment : String) : Bool :=
  segment == "" || segment == "."

/-- The parts that a path leads through. -/
def parts (path : String) : List String :=
  (segments path).filter fun s => !isIdle s

def isAbsolute (path : String) : Bool :=
  path.toList.head? == some '/'

/-- The path can only be the path of a directory. -/
def wantsDirectory (path : String) : Bool :=
  ((segments path).getLast?.map isIdle).getD false

/-- The last segment with characters in it is a single point. -/
def endsInPoint (path : String) : Bool :=
  ((segments path).reverse.find? fun s => s != "") == some "."

/-- The paths on the way out of a path, the path itself first; the root is left out.  Each of them is the
start of the one before it, as it is written. -/
def outward (path : String) : List String :=
  match segments path with
  | [] => []
  | first :: rest => climb first rest.reverse
where
  climb (first : String) : List String → List String
    | [] => if first = "" then [] else [first]
    | s :: rest =>
      if isIdle s then climb first rest
      else "/".intercalate (first :: (s :: rest).reverse) :: climb first rest

def join (directory name : String) : String :=
  if directory.isEmpty || directory.toList.getLast? == some '/' then directory ++ name
  else directory ++ "/" ++ name

def ofParts (absolute : Bool) (parts : List String) : String :=
  (if absolute then "/" else "") ++ "/".intercalate parts

/-- The path stands for standard input. -/
def isDash (path : String) : Bool :=
  !isAbsolute path && (segments path).head? == some "-" && parts path == ["-"]

end TagQuery.Path
