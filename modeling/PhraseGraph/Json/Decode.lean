import PhraseGraph.Dict
import PhraseGraph.Json.Basic

/-!
# Reading typed values out of JSON

Each reader gives nothing if the value is not of the shape that is wanted. Records are read by the
names of their fields: fields of other names are passed over, a name that is known may occur once
only. A record may also be written as the list of its fields' values, in order, and a choice as a
record that names it. A literal that stands for no text is wrong where a text or a name is read, and
is passed over elsewhere.
-/

namespace PhraseGraph.Json

/-- A text. -/
def asText? : Json → Option String
  | text s => some s
  | _ => none

/-- The name of a choice: a text, or a record of a single field that has this name and is null. -/
def asChoice? : Json → Option String
  | text s => some s
  | record [(name, null)] => name.text?
  | _ => none

/-- A truth value. -/
def asBool? : Json → Option Bool
  | bool b => some b
  | _ => none

/-- A natural number of at most 64 bits. -/
def asNat? : Json → Option Nat
  | int n => if 0 ≤ n && n < UInt64.size then some n.toNat else none
  | _ => none

/-- A whole number within the range of signed numbers of `bits` bits. -/
def asSigned? (bits : Nat) : Json → Option Int
  | int n => if -(Nat.pow 2 (bits - 1) : Int) ≤ n && n < Nat.pow 2 (bits - 1) then some n else none
  | _ => none

/-- A list of values that `f` reads. -/
def asList? {α : Type} (f : Json → Option α) : Json → Option (List α)
  | list items => items.mapM f
  | _ => none

/-- A value that `f` reads, or null. -/
def asOption? {α : Type} (f : Json → Option α) : Json → Option (Option α)
  | null => some none
  | j => (f j).map some

/-- A dictionary whose keys `key` reads from the names and whose values `f` reads. Of two fields
    with one name the later one counts. -/
def asDict? {κ α : Type} [Ord κ] [Std.TransOrd κ] (key : Literal → Option κ)
    (f : Json → Option α) : Json → Option (Dict κ α)
  | record fields => do
    let entries ← fields.mapM fun (name, value) => do
      let k ← key name
      let v ← f value
      return (k, v)
    return Dict.ofList entries
  | _ => none

/-- A dictionary with texts for keys. -/
def asTextDict? {α : Type} (f : Json → Option α) : Json → Option (Dict String α) :=
  asDict? Literal.text? f

/-- The values of the fields with the given names, if no such name occurs twice and every name is a
    text. -/
def knownFields? (names : List String) : Json → Option (List (String × Json))
  | record fields => do
    let named ← fields.mapM fun (name, value) => name.text?.map fun name => (name, value)
    let known := named.filter fun field => names.contains field.1
    if names.all fun name => (known.filter fun field => field.1 == name).length ≤ 1 then some known
    else none
  | list items => if items.length ≤ names.length then some (names.zip items) else none
  | _ => none

/-- The value of a field that has to be there. -/
def required? {α : Type} (fields : List (String × Json)) (name : String)
    (f : Json → Option α) : Option α :=
  (fields.lookup name).bind f

/-- The value of a field, or `default` if it is not there. -/
def optional? {α : Type} (fields : List (String × Json)) (name : String) (default : α)
    (f : Json → Option α) : Option α :=
  match fields.lookup name with
  | none => some default
  | some j => f j

end PhraseGraph.Json
