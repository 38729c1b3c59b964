import WafWasm.Common
import Mathlib.Data.List.Basic

set_option autoImplicit false

/-!
# Parsing paths, bodies and cookies

The loops of the parser with their offsets. Offsets are natural numbers: where the source
passes them as `int` the value is exact below 2^31, and no longer text fits the 32-bit module
beside the copy that `slice` takes of it.
-/
namespace WafWasm.HttpParser
open Common UnorderedContainers

section CharArithmetic

/-- A `char` is signed; it is promoted to `int` before any arithmetic. -/
def promote (ch : UInt8) : ℤ := ch.toInt8.toInt

/-- Assigning an `int` to a `char` keeps the low eight bits. -/
def narrow (n : ℤ) : UInt8 := (Int8.ofInt n).toUInt8

def isdigit (c : ℤ) : Bool := 48 ≤ c && c ≤ 57

def toupper (c : ℤ) : ℤ := if 97 ≤ c ∧ c ≤ 122 then c - 32 else c

/-- The byte computed from the two bytes behind a `%`, whatever they are. -/
def escapedChar (hi lo : UInt8) : UInt8 :=
  let ch := if isdigit (promote hi) then narrow (promote hi - 48)
    else narrow (toupper (promote hi) - 65 + 10)
  let ch := narrow (promote ch * 16)
  if isdigit (promote lo) then narrow (promote ch + (promote lo - 48))
  else narrow (promote ch + (toupper (promote lo) - 65 + 10))

end CharArithmetic

def percentDecodeFrom (encoded decoded : Bytes) (i : ℕ) : Bytes :=
  if h : i < encoded.length then
    let ch := if encoded[i] = plus then space else encoded[i]
    if hi : ch = percent ∧ i + 2 < encoded.length then
      let ch := escapedChar encoded[i + 1] encoded[i + 2]
      percentDecodeFrom encoded (decoded ++ [ch]) (i + 3)
    else percentDecodeFrom encoded (decoded ++ [ch]) (i + 1)
  else decoded
termination_by encoded.length - i

def percentDecode (encoded : Bytes) : Bytes := percentDecodeFrom encoded [] 0

def find (data : Bytes) (c : UInt8) (start : ℕ) : Option ℕ :=
  ((data.drop start).findIdx? (· == c)).map (start + ·)

def findFirstNotOf (data : Bytes) (c : UInt8) (start : ℕ) : Option ℕ :=
  ((data.drop start).findIdx? (fun b => !(b == c))).map (start + ·)

def substr (str : Bytes) (pos count : ℕ) : Bytes := (str.drop pos).take count

def slice (str : Bytes) (start stop : ℕ) : Bytes := substr str start (stop - start)

def delim (cookie : Bool) : UInt8 := if cookie then semicolon else ampersand

/-- A cookie's outer double quotes are not part of its value. -/
def removeQuotes (cookie : Bool) (val : Bytes) : Bytes :=
  if cookie ∧ 2 ≤ val.length ∧ val.getLast? = some quote ∧ val[0]? = some quote then
    slice val 1 (val.length - 1)
  else val

/-- One turn of the loop: the parameter between `start` and `stop`. -/
def emplaceParameter (data : Bytes) (cookie : Bool) (params : QueryParams) (start stop : ℕ) :
    QueryParams :=
  let param := slice data start stop
  match find param equals 0 with
  | some equal =>
    let key := percentDecode (slice data start (start + equal))
    let val := percentDecode (slice data (start + equal + 1) stop)
    emplace params key (removeQuotes cookie val)
  | none => emplace params (percentDecode (slice data start stop)) []

def stopOf (data : Bytes) (cookie : Bool) (start : ℕ) : ℕ :=
  (find data (delim cookie) start).getD data.length

/-- Where the next parameter starts; none is `npos`, which ends the loop. -/
def nextStart (data : Bytes) (cookie : Bool) (stop : ℕ) : Option ℕ :=
  if cookie then findFirstNotOf data space (stop + 1) else some (stop + 1)

theorem le_of_find {p : UInt8 → Bool} {data : Bytes} {start n : ℕ}
    (h : ((data.drop start).findIdx? p).map (start + ·) = some n) : start ≤ n := by
  obtain ⟨i, _, rfl⟩ := Option.map_eq_some_iff.mp h
  exact Nat.le_add_right start i

theorem le_stopOf {data : Bytes} (cookie : Bool) {start : ℕ} (h : start < data.length) :
    start ≤ stopOf data cookie start := by
  unfold stopOf
  cases hf : find data (delim cookie) start with
  | none => exact h.le
  | some n => exact le_of_find hf

theorem lt_nextStart {data : Bytes} {cookie : Bool} {stop next : ℕ}
    (h : nextStart data cookie stop = some next) : stop < next := by
  unfold nextStart at h
  split_ifs at h
  · exact le_of_find h
  · exact (Option.some.inj h) ▸ Nat.lt_succ_self stop

def parseFrom (data : Bytes) (cookie : Bool) (params : QueryParams) (start : ℕ) : QueryParams :=
  if _h : start < data.length then
    let stop := stopOf data cookie start
    let params := emplaceParameter data cookie params start stop
    match _hn : nextStart data cookie stop with
    | some next => parseFrom data cookie params next
    | none => params
  else params
termination_by data.length - start
decreasing_by
  have hle := le_stopOf cookie _h
  have hlt := lt_nextStart _hn
  omega

def parseParameters (data : Bytes) (start : ℕ) (cookie : Bool := false) : QueryParams :=
  parseFrom data cookie ∅ start

def parsePath (path : Bytes) : QueryParams :=
  match find path questionMark 0 with
  | none => ∅
  | some start => parseParameters path (start + 1)

def parseBody (body : Bytes) : QueryParams := parseParameters body 0

def parseCookie (cookie : Bytes) : QueryParams := parseParameters cookie 0 true

end WafWasm.HttpParser
