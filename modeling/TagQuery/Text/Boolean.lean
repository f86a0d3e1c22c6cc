/-! Booleans as text. -/

namespace TagQuery.Text

def booleanText (b : Bool) : String :=
  if b then "true" else "false"

end TagQuery.Text
