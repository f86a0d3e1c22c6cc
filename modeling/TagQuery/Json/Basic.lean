import TagQuery.Number.Basic

/-! JSON values.

An object is a list of members.  A reader that keeps one value for each key lists them by key
(`insertMember`); a writer prints them in the order they are in. -/

namespace TagQuery

inductive Json where
  | null
  | boolean (value : Bool)
  | number (value : Number)
  | string (text : String)
  | array (items : List Json)
  | object (members : List (String × Json))
  deriving Repr, Inhabited

namespace Json

/-- The members with one more, ordered by key; a member with the same key gives way. -/
def insertMember (key : String) (value : Json) : List (String × Json) → List (String × Json)
  | [] => [(key, value)]
  | (k, v) :: ms =>
    if key < k then (key, value) :: (k, v) :: ms
    else if key = k then (key, value) :: ms
    else (k, v) :: insertMember key value ms

/-- The members by key; of two with the same key the later one stays. -/
def sortMembers (ms : List (String × Json)) : List (String × Json) :=
  ms.foldl (fun sorted m => insertMember m.1 m.2 sorted) []

/-! ## Equality -/

mutual

def same : Json → Json → Bool
  | .null, .null => true
  | .boolean x, .boolean y => x == y
  | .number x, .number y => x == y
  | .string x, .string y => x == y
  | .array xs, .array ys => sameItems xs ys
  | .object xs, .object ys => sameMembers xs ys
  | _, _ => false

def sameItems : List Json → List Json → Bool
  | [], [] => true
  | x :: xs, y :: ys => same x y && sameItems xs ys
  | _, _ => false

def sameMembers : List (String × Json) → List (String × Json) → Bool
  | [], [] => true
  | (k, x) :: xs, (l, y) :: ys => k == l && same x y && sameMembers xs ys
  | _, _ => false

end

mutual

theorem same_iff : ∀ {x y : Json}, same x y = true ↔ x = y
  | .null, y => by cases y <;> simp [same]
  | .boolean _, y => by cases y <;> simp [same]
  | .number _, y => by cases y <;> simp [same]
  | .string _, y => by cases y <;> simp [same]
  | .array xs, y => by cases y <;> simp [same, sameItems_iff (s := xs)]
  | .object xs, y => by cases y <;> simp [same, sameMembers_iff (s := xs)]

theorem sameItems_iff : ∀ {s t : List Json}, sameItems s t = true ↔ s = t
  | [], ys => by cases ys <;> simp [sameItems]
  | x :: xs, ys => by
    cases ys <;> simp [sameItems, same_iff (x := x), sameItems_iff (s := xs)]

theorem sameMembers_iff : ∀ {s t : List (String × Json)}, sameMembers s t = true ↔ s = t
  | [], ys => by cases ys <;> simp [sameMembers]
  | (k, x) :: xs, ys => by
    cases ys with
    | nil => simp [sameMembers]
    | cons m ys =>
      simp [sameMembers, same_iff (x := x), sameMembers_iff (s := xs), Prod.ext_iff]

end

instance : DecidableEq Json := fun _ _ => decidable_of_iff _ same_iff

mutual

/-- The two values are equal, the zeros of both signs being one number. -/
def agrees : Json → Json → Bool
  | .number x, .number y => x.agrees y
  | .array xs, .array ys => agreesItems xs ys
  | .object xs, .object ys => agreesMembers xs ys
  | x, y => same x y

def agreesItems : List Json → List Json → Bool
  | [], [] => true
  | x :: xs, y :: ys => agrees x y && agreesItems xs ys
  | _, _ => false

def agreesMembers : List (String × Json) → List (String × Json) → Bool
  | [], [] => true
  | (k, x) :: xs, (l, y) :: ys => k == l && agrees x y && agreesMembers xs ys
  | _, _ => false

end

end Json

end TagQuery
