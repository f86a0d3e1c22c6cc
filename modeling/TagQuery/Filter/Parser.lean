import TagQuery.Filter.Scanner
import TagQuery.Filter.Suggestion

/-! Filters from tokens.

    filter    = chain ("OR" chain)*
    chain     = operand ("AND" operand)*
    operand   = "(" filter ")" | condition
    condition = entity COMPARISON literal | entity TEST
    entity    = name (":" key)? ("@" origin)?

The parser takes one token at a time (`Parser.step`).  Its state holds the chains that are open, one
level for each open bracket, and the phase, which says what may come next.  A token that cannot follow
ends the run, so that an error is found at the first token that no filter has at that place. -/

namespace TagQuery

namespace Parser

/-! ## States -/

/-- What has been read of one filter in brackets, or of the whole filter: its finished alternatives and the
operands of the chain in progress, the latest first. -/
structure Level where
  chains : List Chain
  operands : List Operand
  deriving DecidableEq, Repr

/-- What may come next. -/
inductive Phase where
  /-- An opening bracket or the name of a condition. -/
  | operand
  /-- The rest of an entity, or the operator behind it. -/
  | entity (e : Entity)
  /-- The key behind a colon. -/
  | key (e : Entity)
  /-- The origin behind an `@`. -/
  | origin (e : Entity)
  /-- The value behind a comparison at `position`. -/
  | value (e : Entity) (op : Comparison) (position : Nat)
  /-- No value behind a test at `position`, but all that follows a condition. -/
  | noValue (e : Entity) (op : Test) (position : Nat)
  /-- A connective, a closing bracket or the end. -/
  | after (o : Operand)
  deriving DecidableEq, Repr

/-- The state between two tokens. -/
structure State where
  /-- The level in progress. -/
  level : Level
  /-- The levels around it, the innermost first, each with the position of the bracket that was opened in
  it. -/
  outer : List (Nat × Level)
  /-- The number of conditions that have been started. -/
  conditions : Nat
  phase : Phase
  deriving DecidableEq, Repr

namespace Level

def empty : Level := ⟨[], []⟩

/-- The chain that ends with the operand `last`. -/
def chain (l : Level) (last : Operand) : Chain :=
  l.operands.foldl (fun rest o => .and o rest) (.single last)

/-- The filter that ends with the operand `last`. -/
def filter (l : Level) (last : Operand) : Filter :=
  l.chains.foldl (fun rest c => .or c rest) (.single (l.chain last))

end Level

def State.initial : State := ⟨.empty, [], 0, .operand⟩

/-! ## Steps -/

def stepOperand (s : State) (l : Lexeme) : Except ReadError State :=
  match l.token with
  | .openBracket =>
    if maxDepth ≤ s.outer.length then .error (.nestedTooDeep l.position)
    else .ok { s with level := .empty, outer := (l.position, s.level) :: s.outer }
  | t =>
    if maxConditions ≤ s.conditions then .error (.tooManyConditions l.position)
    else
      match t with
      | .identifier name =>
        .ok { s with conditions := s.conditions + 1, phase := .entity ⟨name, none, none⟩ }
      | t => .error (.unexpectedToken t .entityName l.position)

/-- The step behind an entity that may still grow. -/
def stepEntity (s : State) (e : Entity) (l : Lexeme) : Except ReadError State :=
  let unexpected := .error (.unexpectedToken l.token .operator l.position)
  match l.token with
  | .colon =>
    if e.key.isNone && e.origin.isNone then .ok { s with phase := .key e } else unexpected
  | .at => if e.origin.isNone then .ok { s with phase := .origin e } else unexpected
  | .operator (.comparison op) => .ok { s with phase := .value e op l.position }
  | .operator (.test op) => .ok { s with phase := .noValue e op l.position }
  | .identifier word => .error (.unknownOperator word (suggestOperator word) l.position)
  | _ => unexpected

/-- The step behind a finished operand. -/
def stepAfter (s : State) (o : Operand) (l : Lexeme) : Except ReadError State :=
  match l.token, s.outer with
  | .and, _ =>
    .ok { s with level := ⟨s.level.chains, o :: s.level.operands⟩, phase := .operand }
  | .or, _ =>
    .ok { s with level := ⟨s.level.chain o :: s.level.chains, []⟩, phase := .operand }
  | .closeBracket, (_, level) :: outer =>
    .ok { s with level, outer, phase := .after (.group (s.level.filter o)) }
  | t, [] => .error (.unexpectedToken t .connectiveOrEnd l.position)
  | t, _ :: _ => .error (.unexpectedToken t .connectiveOrClose l.position)

/-- The state behind a token, or why the token cannot stand there. -/
def step (s : State) (l : Lexeme) : Except ReadError State :=
  match s.phase with
  | .operand => stepOperand s l
  | .entity e => stepEntity s e l
  | .key e =>
    match l.token with
    | .identifier key | .literal (.string key) =>
      .ok { s with phase := .entity { e with key := some key } }
    | t => .error (.unexpectedToken t .tagKey l.position)
  | .origin e =>
    match l.token with
    | .identifier word =>
      match Origin.ofKey? word with
      | some origin => .ok { s with phase := .entity { e with origin := some origin } }
      | none => .error (.unknownOrigin word l.position)
    | t => .error (.unexpectedToken t .origin l.position)
  | .value e op position =>
    match l.token with
    | .literal v => .ok { s with phase := .after (.condition (.compare e op v)) }
    | .and | .or | .closeBracket => .error (.wrongArity (.comparison op) position)
    | t => .error (.unexpectedToken t .value l.position)
  | .noValue e op position =>
    match l.token with
    | .literal _ => .error (.wrongArity (.test op) position)
    | _ => stepAfter s (.condition (.test e op)) l
  | .after o => stepAfter s o l

/-- The filter that ends with the operand `o`, if no bracket is open. -/
def finishAfter (s : State) (o : Operand) : Except ReadError Filter :=
  match s.outer with
  | [] => .ok (s.level.filter o)
  | (position, _) :: _ => .error (.unclosedBracket position)

/-- The filter at the end of a text of `size` bytes, or what is missing there. -/
def finish (size : Nat) (s : State) : Except ReadError Filter :=
  match s.phase with
  | .operand => .error (.unexpectedEnd .entityName size)
  | .entity _ => .error (.unexpectedEnd .operator size)
  | .key _ => .error (.unexpectedEnd .tagKey size)
  | .origin _ => .error (.unexpectedEnd .origin size)
  | .value _ op position => .error (.wrongArity (.comparison op) position)
  | .noValue e op _ => finishAfter s (.condition (.test e op))
  | .after o => finishAfter s o

def run (s : State) (ls : List Lexeme) : Except ReadError State :=
  ls.foldlM step s

end Parser

namespace Filter

/-- The filter that the tokens of a text of `size` bytes make up. -/
def ofLexemes (size : Nat) (ls : List Lexeme) : Except ReadError Filter :=
  if ls.isEmpty then .error .emptyFilter
  else Parser.run .initial ls >>= Parser.finish size

def parse (text : String) : Except ReadError Filter :=
  Lexeme.read text >>= ofLexemes text.utf8ByteSize

end Filter

/-! ## Lemmas -/

namespace Parser

@[simp] theorem run_nil (s : State) : run s [] = .ok s := rfl

theorem run_cons (s : State) (l : Lexeme) (ls : List Lexeme) :
    run s (l :: ls) = step s l >>= fun s => run s ls := by
  simp [run, List.foldlM]

/-- A run over two lists is a run over the first and then one over the second. -/
theorem run_append (s : State) (ls ms : List Lexeme) :
    run s (ls ++ ms) = run s ls >>= fun s => run s ms := by
  simp [run, List.foldlM_append]

end Parser

end TagQuery
