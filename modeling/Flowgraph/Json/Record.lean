import Flowgraph.Json.Basic

/-!
# Records from JSON

Reading records with known fields. A record is an object, in which other fields do not count but no
known one may stand twice, or an array of its fields in order.
-/

namespace Flowgraph.Json

/-! ## Fields -/

/-- The value of the only entry with a key. A key that stands twice makes the record unreadable. -/
def lookup? (key : String) (entries : List (Option String × Json)) : Option (Option Json) :=
  match entries.filter (·.1 == some key) with
  | [] => some none
  | [e] => some (some e.2)
  | _ => none

/-- The values of the fields of a record, in the order of `keys`; `none` for a field that is not
there. -/
def fields? (keys : List String) : Json → Option (List (Option Json))
  | .object entries =>
    if entries.all (·.1.isSome) then keys.mapM fun key => lookup? key entries else none
  | .array items =>
    if items.length ≤ keys.length then
      some (items.map some ++ List.replicate (keys.length - items.length) none)
    else none
  | _ => none

/-! ## Values -/

def asString? : Json → Option String
  | .text s => s
  | _ => none

def asBool? : Json → Option Bool
  | .bool b => some b
  | _ => none

/-- The largest number of 64 bits. -/
def maxNat : Nat := 0xffffffffffffffff

/-- A natural number of at most 64 bits. -/
def asNat? : Json → Option Nat
  | .nat n => if n ≤ maxNat then some n else none
  | _ => none

def asList? (f : Json → Option α) : Json → Option (List α)
  | .array items => items.mapM f
  | _ => none

/-- The entries of an object. -/
def asEntries? (f : Json → Option α) : Json → Option (List (String × α))
  | .object entries => entries.mapM fun (key, value) => key.bind fun k => (f value).map fun a => (k, a)
  | _ => none

/-- A field that must be there. -/
def required (f : Json → Option α) (j : Option Json) : Option α := j.bind f

/-- A field that has a default. -/
def defaulted (default : α) (f : Json → Option α) : Option Json → Option α
  | none => some default
  | some j => f j

/-- A field that may be absent or null. -/
def nullable (f : Json → Option α) : Option Json → Option (Option α)
  | none => some none
  | some .null => some none
  | some j => (f j).map some

end Flowgraph.Json
