/-! Colours.

Every style is a pair of escape sequences around a text.  A `Palette` says whether they are written. -/

namespace TagQuery

inductive Palette where
  | colored
  | plain
  deriving DecidableEq, Repr

namespace Palette

/-- The palette with colours if they are wanted. -/
def ofBool : Bool → Palette
  | true => .colored
  | false => .plain

/-- A text with a style put around it. -/
def around (p : Palette) (start : String) (text : String) (stop : String) : String :=
  match p with
  | .colored => start ++ text ++ stop
  | .plain => text

@[simp] theorem around_plain (start text stop : String) :
    Palette.plain.around start text stop = text := rfl

def green (p : Palette) (text : String) : String :=
  p.around "\x1b[32m" text "\x1b[39m"

def bold (p : Palette) (text : String) : String :=
  p.around "\x1b[1m" text "\x1b[0m"

def dimmed (p : Palette) (text : String) : String :=
  p.around "\x1b[2m" text "\x1b[0m"

def blue (p : Palette) (text : String) : String :=
  p.around "\x1b[34m" text "\x1b[0m"

def italic (p : Palette) (text : String) : String :=
  p.around "\x1b[3m" text "\x1b[0m"

end Palette

end TagQuery
