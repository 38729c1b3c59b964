import WafWasm.Common

set_option autoImplicit false

/-!
# JSON values

The part of the vendored library that the configuration parser uses: `operator[]` with a
string key and `get`, with the type errors they throw. Reading JSON from text is a parameter
of the functions that need it. Numbers are never read, so their value is left out.
-/
namespace WafWasm.JsonValue
open Common

inductive Json where
  | null
  | boolean (b : Bool)
  | number
  | string (s : Bytes)
  | array (elements : List Json)
  | object (members : List (Bytes × Json))

structure TypeError where
  id : ℕ
  what : Bytes
deriving DecidableEq

def TypeError.create (id : ℕ) (what : Bytes) : TypeError :=
  ⟨id, bytes "[json.exception.type_error." ++ bytes (toString id) ++ bytes "] " ++ what⟩

def Json.isNull : Json → Bool
  | .null => true
  | _ => false

def Json.typeName : Json → Bytes
  | .null => bytes "null"
  | .object _ => bytes "object"
  | .array _ => bytes "array"
  | .string _ => bytes "string"
  | .boolean _ => bytes "boolean"
  | .number => bytes "number"

/-- `operator[]`: a missing member reads as null, which the library inserts. -/
def Json.at (j : Json) (key : Bytes) : Except TypeError Json :=
  match j with
  | .null => .ok .null
  | .object members => .ok ((members.lookup key).getD .null)
  | j => .error (.create 305
      (bytes "cannot use operator[] with a string argument with " ++ j.typeName))

def Json.getString : Json → Except TypeError Bytes
  | .string s => .ok s
  | j => .error (.create 302 (bytes "type must be string, but is " ++ j.typeName))

def Json.getKeys : Json → Except TypeError Keys
  | .array elements => (elements.mapM Json.getString).map List.toFinset
  | j => .error (.create 302 (bytes "type must be array, but is " ++ j.typeName))

/-- A reader of JSON that knows these texts and no others. -/
def readTable (table : List (Bytes × Json)) (text : Bytes) : Option Json := table.lookup text

end WafWasm.JsonValue
