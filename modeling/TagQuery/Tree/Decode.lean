import TagQuery.Json.Skipper
import TagQuery.Tree.Encode

/-! Trees from JSON.

A node is an object with the fields by name, or an array with the fields in order.  Fields that are absent
or `null` are not set; unknown keys are passed over; a field that comes twice is a fault.  Trees are decoded
from a text as it is read (`Tree.ofText`), or from a finished value (`Tree.ofJson`). -/

namespace TagQuery

/-- Why a JSON text or value is no tree; the place is known for texts only. -/
structure DecodeError where
  problem : Json.Problem
  place : Option Json.Place
  deriving DecidableEq, Repr

namespace DecodeError

/-- What all messages start with. -/
def opening : String :=
  "failed to decode tag filter JSON: "

/-- The message without the place. -/
def summary (e : DecodeError) : String :=
  opening ++ e.problem.text

def message (e : DecodeError) : String :=
  match e.place with
  | some p => opening ++ (⟨e.problem, p⟩ : Json.Fault).text
  | none => e.summary

def line? (e : DecodeError) : Option Nat :=
  e.place.map Json.Place.line

end DecodeError

/-- What the value of a field has to be. -/
inductive FieldType where
  | string
  | number
  | boolean
  | any
  deriving DecidableEq, Repr

def FieldType.wanted : FieldType → String
  | .string => "a string"
  | .number => "a JSON number"
  | .boolean => "a boolean"
  | .any => "any value"

/-- What the value of a field has to be; the elements are nodes of their own. -/
def Field.type? : Field → Option FieldType
  | .elements => none
  | .numberValue => some .number
  | .booleanValue => some .boolean
  | .value => some .any
  | _ => some .string

/-- What a list of elements has to be, in the words of a message. -/
def elementsWanted : String := "a sequence"

/-- What a node has to be, in the words of a message. -/
def nodeWanted : String := "struct TagFilter"

/-- The value of a field that has been read. -/
inductive FieldValue where
  | string (text : String)
  | number (value : Number)
  | boolean (value : Bool)
  | any (value : Json)
  | elements (trees : List Tree)
  | unset

namespace Tree

/-- The tree with a field set.  A value of another type than the field's does not change it. -/
def setField (t : Tree) : Field → FieldValue → Tree
  | .kind, .string s => ⟨{ t.label with kind := some (.ofText s) }, t.elements⟩
  | .connective, .string s => ⟨{ t.label with connective := some (.ofText s) }, t.elements⟩
  | .elements, .elements ts => ⟨t.label, ts⟩
  | .name, .string s => ⟨{ t.label with name := some s }, t.elements⟩
  | .entity, .string s => ⟨{ t.label with entity := some (.ofText s) }, t.elements⟩
  | .operator, .string s => ⟨{ t.label with operator := some (.ofText s) }, t.elements⟩
  | .key, .string s => ⟨{ t.label with key := some s }, t.elements⟩
  | .stringValue, .string s => ⟨{ t.label with stringValue := some s }, t.elements⟩
  | .numberValue, .number n => ⟨{ t.label with numberValue := some n }, t.elements⟩
  | .booleanValue, .boolean b => ⟨{ t.label with booleanValue := some b }, t.elements⟩
  | .value, .any v => ⟨{ t.label with value := some v }, t.elements⟩
  | _, _ => t

/-- The tree with these fields. -/
def ofFields (fields : List (Field × FieldValue)) : Tree :=
  fields.foldl (fun t f => t.setField f.1 f.2) .empty

end Tree

/-! ## Decoding a value -/

namespace Json

/-- The error of a value that is not what is wanted. -/
def mismatch (v : Json) (wanted : String) : DecodeError :=
  ⟨.wrongType v.found wanted, none⟩

end Json

/-- The value of a field that holds no elements. -/
def FieldValue.ofJson (type : FieldType) (v : Json) : Except DecodeError FieldValue :=
  match type, v with
  | _, .null => .ok .unset
  | .any, v => .ok (.any v)
  | .string, .string s => .ok (.string s)
  | .number, .number n => .ok (.number n)
  | .boolean, .boolean b => .ok (.boolean b)
  | type, v => .error (v.mismatch type.wanted)

namespace Tree

mutual

def ofJson : Json → Except DecodeError Tree
  | .object members => do return .ofFields (← fieldsOfMembers members)
  | .array items => do
    let fields ← fieldsOfItems Field.all items
    if Field.all.length < items.length then .error ⟨.tooManyItems items.length, none⟩
    else return .ofFields fields
  | v => .error (v.mismatch nodeWanted)

def fieldsOfMembers : List (String × Json) → Except DecodeError (List (Field × FieldValue))
  | [] => .ok []
  | (key, v) :: ms =>
    match wordOf? Field key with
    | none => fieldsOfMembers ms
    | some f => do
      let x ← match f.type? with
        | some type => FieldValue.ofJson type v
        | none => (ofElements v).map .elements
      return (f, x) :: (← fieldsOfMembers ms)

/-- The fields of an array that lists them in order. -/
def fieldsOfItems : List Field → List Json → Except DecodeError (List (Field × FieldValue))
  | f :: fs, v :: vs => do
    let x ← match f.type? with
      | some type => FieldValue.ofJson type v
      | none => (ofElements v).map .elements
    return (f, x) :: (← fieldsOfItems fs vs)
  | _, _ => .ok []

/-- The trees that the items of an array stand for. -/
def ofElements : Json → Except DecodeError (List Tree)
  | .array items => ofItems items
  | v => .error (v.mismatch elementsWanted)

def ofItems : List Json → Except DecodeError (List Tree)
  | [] => .ok []
  | v :: vs => do return (← ofJson v) :: (← ofItems vs)

end

end Tree

/-! ## Decoding a text -/

namespace Json

/-- Reads a value that is not what is wanted; the brackets of an array or object are not entered. -/
def readMismatch (wanted : String) (c : Cursor) : Fault :=
  match c.rest with
  | [] => c.fault .expectedValue
  | ch :: rest =>
    if ch = '[' then c.fault (.wrongType .sequence wanted)
    else if ch = '\x7b' then c.fault (.wrongType .map wanted)
    else
      match readScalar ch c ⟨c.place.after ch, rest⟩ with
      | .error f => f
      | .ok (s, d) => d.fault (.wrongType s.toJson.found wanted)

/-- Where a reader stops that takes what it has entered for the end of an array. -/
def stopOfArray (c : Cursor) : Cursor :=
  let c := c.skipSpace
  match c.rest with
  | ']' :: rest => ⟨c.place.after ']', rest⟩
  | ',' :: rest => (⟨c.place.after ',', rest⟩ : Cursor).skipSpace
  | _ => c

/-- Where a reader stops that takes what it has entered for the end of an object. -/
def stopOfObject (c : Cursor) : Cursor :=
  let c := c.skipSpace
  match c.rest with
  | '\x7d' :: rest => ⟨c.place.after '\x7d', rest⟩
  | _ => c

/-- Reads a value that is not the number that is wanted; the bracket of an array or object is entered. -/
def readNoNumber (levels : Nat) (c : Cursor) : Fault :=
  let wanted := FieldType.number.wanted
  match c.rest with
  | [] => c.fault .expectedValue
  | ch :: rest =>
    let behind : Cursor := ⟨c.place.after ch, rest⟩
    if (ch = '[' ∨ ch = '\x7b') ∧ levels = 0 then c.faultAhead .nestedTooDeep
    else if ch = '[' then (stopOfArray behind).fault (.wrongType .sequence wanted)
    else if ch = '\x7b' then (stopOfObject behind).fault (.wrongType .map wanted)
    else readMismatch wanted c

/-- Reads the value of a field that holds no elements; `levels` is how deep it may nest. -/
def readField (type : FieldType) (levels : Nat) (c : Cursor) : Except Fault (FieldValue × Cursor) :=
  let c := c.skipSpace
  match c.rest with
  | [] => .error (c.fault (.endOfInput .value))
  | ch :: rest =>
    let behind : Cursor := ⟨c.place.after ch, rest⟩
    if ch = 'n' then do return (.unset, ← readWord behind "ull".toList)
    else
      match type with
      | .any => do
        let (v, d) ← readValue levels c
        return (.any v, d)
      | .string => do
        if ch = '"' then
          let (s, d) ← readString behind
          return (.string s, d)
        else .error (readMismatch type.wanted c)
      | .boolean => do
        if ch = 't' then return (.boolean true, ← readWord behind "rue".toList)
        else if ch = 'f' then return (.boolean false, ← readWord behind "alse".toList)
        else .error (readMismatch type.wanted c)
      | .number => do
        if ch = '-' ∨ isDigit ch then
          let (n, d) ← if ch = '-' then readNumber true behind else readNumber false c
          return (.number n, d)
        else .error (readNoNumber levels c)

end Json

namespace Tree

open Json

/-- Reads the elements of a node with `node`; `levels` is how deep they may nest. -/
def readElements (node : Cursor → Except Fault (Tree × Cursor)) (levels : Nat) (c : Cursor) :
    Except Fault (FieldValue × Cursor) :=
  let c := c.skipSpace
  match c.rest with
  | [] => .error (c.fault (.endOfInput .value))
  | ch :: rest =>
    if ch = '[' then
      if levels = 0 then .error (c.faultAhead .nestedTooDeep)
      else do
        let (ts, d) ← readItems node true ⟨c.place.after ch, rest⟩
        return (.elements ts, ← endArray d)
    else .error (readMismatch elementsWanted c)

/-- Reads the fields of an array that lists them in order. -/
def readItemFields (value : Field → Cursor → Except Fault (FieldValue × Cursor)) :
    List Field → Bool → Cursor → Except Fault (List (Field × FieldValue) × Cursor)
  | [], _, c => .ok ([], c)
  | f :: fs, first, c => do
    let (next, d) ← nextItem first c
    match next with
    | none => return ([], d)
    | some d =>
      let (x, d) ← value f d
      let (xs, d) ← readItemFields value fs false d
      return ((f, x) :: xs, d)

/-- Reads the fields of an object, of which `seen` have been read. -/
def readMemberFields (value : Field → Cursor → Except Fault (FieldValue × Cursor))
    (seen : List Field) (first : Bool) (c : Cursor) :
    Except Fault (List (Field × FieldValue) × Cursor) := do
  let (next, d) ← nextKey first c
  match next with
  | none => return ([], d)
  | some d =>
    let (key, d) ← readString d
    match wordOf? Field key with
    | none =>
      let e ← skipValue (← readColon d)
      if _h : e.rest.length < c.rest.length then readMemberFields value seen false e
      else .error (e.fault .expectedValue)
    | some f =>
      if seen.contains f then .error ((stopOfObject d).fault (.duplicateField f.text))
      else
        let (x, e) ← value f (← readColon d)
        if _h : e.rest.length < c.rest.length then
          let (xs, e) ← readMemberFields value (f :: seen) false e
          return ((f, x) :: xs, e)
        else .error (e.fault .expectedValue)
termination_by c.rest.length
decreasing_by all_goals exact _h

/-- Reads a node that may have arrays and objects nested `levels` deep. -/
def readNode (levels : Nat) (c : Cursor) : Except Fault (Tree × Cursor) :=
  let c := c.skipSpace
  match c.rest with
  | [] => .error (c.fault (.endOfInput .value))
  | ch :: rest =>
    let behind : Cursor := ⟨c.place.after ch, rest⟩
    if ch = '[' ∨ ch = '\x7b' then
      match levels with
      | 0 => .error (c.faultAhead .nestedTooDeep)
      | levels + 1 =>
        let value := fun f : Field =>
          match f.type? with
          | some type => readField type levels
          | none => readElements (readNode (levels - 1)) levels
        if ch = '[' then do
          let (fields, d) ← readItemFields value Field.all true behind
          return (.ofFields fields, ← endArray d)
        else do
          let (fields, d) ← readMemberFields value [] true behind
          return (.ofFields fields, ← endObject d)
    else .error (readMismatch nodeWanted c)
termination_by levels

def ofText (text : String) : Except DecodeError Tree :=
  let run := do
    let (t, c) ← readNode maxNesting (.ofText text)
    readEnd c
    return t
  run.mapError fun f => ⟨f.problem, some f.place⟩

/-- The tree that a text stands for, decoded from its finished value. -/
def ofTextValue (text : String) : Except DecodeError Tree := do
  let v ← (Json.read text).mapError fun f => ⟨f.problem, some f.place⟩
  ofJson v

end Tree

end TagQuery
