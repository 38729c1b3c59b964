import WafWasm.Common

set_option autoImplicit false

/-!
# SQL injection detection on parameters

`detectSQLi`, the call into libinjection, is an arbitrary predicate on byte strings. The order
in which the unordered containers are visited is an argument of every loop over them.
-/
namespace WafWasm.Sqli
open Common UnorderedContainers

structure IterationOrder where
  params : Traversal Bytes
  keys : Traversal Bytes

noncomputable def IterationOrder.toList : IterationOrder := ⟨.toList Bytes, .toList Bytes⟩

/-- What `detectSQLiOnParams` returns, and the log it leaves behind. -/
structure Detection where
  found : Bool
  log : Bytes

variable (detectSQLi : Bytes → Bool) (order : IterationOrder)

def pickKeysForDetection (params : QueryParams) (isInclude : Bool) (keys : Keys) : Keys :=
  if isInclude then keys
  else (order.params.visit params.keys).foldl
    (fun picked key => if key ∈ keys then picked else insert key picked) ∅

def inspectKeys (params : QueryParams) : List Bytes → Bytes → Detection
  | [], log => ⟨false, log⟩
  | key :: rest, log =>
    match params.lookup key with
    | none => inspectKeys params rest (log ++ bytes "key [" ++ key ++ bytes "] not in params\n")
    | some val =>
      if detectSQLi val || detectSQLi key then ⟨true, log ++ bytes "-- SQL injection detected"⟩
      else inspectKeys params rest (log ++ bytes "key [" ++ key ++ bytes "] passed detection\n")

def detectSQLiOnParams (params : QueryParams) (isInclude : Bool) (keys : Keys) : Detection :=
  inspectKeys detectSQLi params
    (order.keys.visit (pickKeysForDetection order params isInclude keys)) []

end WafWasm.Sqli
