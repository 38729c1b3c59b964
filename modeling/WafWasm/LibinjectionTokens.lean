import WafWasm.CheckedMemory
import WafWasm.Common

set_option autoImplicit false

namespace WafWasm.LibinjectionTokens
open CheckedMemory Common

section Characters

def signed (ch : UInt8) : ℤ := if ch.toNat < 128 then ch.toNat else ch.toNat - 256

/-- `strchr(accept, ch) != NULL`, which also finds the terminator of `accept`. -/
def strchr (accept : Bytes) (ch : UInt8) : Bool := ch == 0 || accept.contains ch

def charIsWhite (ch : UInt8) : Bool :=
  strchr [0x20, 0x09, 0x0A, 0x0B, 0x0C, 0x0D, 0xA0] ch

def isDigit (ch : UInt8) : Bool := 0x30 ≤ ch && ch ≤ 0x39

def upper (ch : UInt8) : UInt8 := if 0x61 ≤ ch && ch ≤ 0x7A then ch - 0x20 else ch

/-- Compares the C string `a`, given by its characters, with `n` bytes of `b`. -/
def cstrcasecmp : Bytes → Bytes → ℕ → Checked ℤ
  | a, _, 0 => .ok (if a = [] then 0 else 1)
  | _, [], _ + 1 => .error .outOfBounds
  | [], cb :: _, _ + 1 => .ok (if upper cb = 0 then -1 else -signed (upper cb))
  | ca :: a, cb :: b, n + 1 =>
    if ca ≠ upper cb then .ok (signed ca - signed (upper cb)) else cstrcasecmp a b n

end Characters

section Searches

def memchr (s : Bytes) (start n : ℕ) (ch : UInt8) : Checked (Option ℕ) := do
  let window ← slice s start n
  return (window.findIdx? (· == ch)).map (start + ·)

def findPair (c0 c1 : UInt8) : Bytes → Option ℕ
  | a :: b :: rest =>
    if a = c0 ∧ b = c1 then some 0 else (findPair c0 c1 (b :: rest)).map (· + 1)
  | _ => none

def memchr2 (s : Bytes) (start n : ℕ) (c0 c1 : UInt8) : Checked (Option ℕ) := do
  let window ← slice s start n
  return (findPair c0 c1 window).map (start + ·)

def findInfix (needle : Bytes) : Bytes → Option ℕ
  | [] => none
  | a :: rest =>
    if needle <+: a :: rest then some 0 else (findInfix needle rest).map (· + 1)

def myMemmem (s : Bytes) (start n : ℕ) (needle : Bytes) : Checked (Option ℕ) := do
  require (1 < needle.length)
  let window ← slice s start n
  return (findInfix needle window).map (start + ·)

def strlenspn (s : Bytes) (start n : ℕ) (accept : Bytes) : Checked ℕ := do
  let window ← slice s start n
  return (window.takeWhile (strchr accept)).length

def strlencspn (s : Bytes) (start n : ℕ) (accept : Bytes) : Checked ℕ := do
  let window ← slice s start n
  return (window.takeWhile (fun ch => !strchr accept ch)).length

end Searches

section TokenTypes

abbrev typeNone : UInt8 := 0
abbrev typeKeyword : UInt8 := 0x6B
abbrev typeUnion : UInt8 := 0x55
abbrev typeGroup : UInt8 := 0x42
abbrev typeExpression : UInt8 := 0x45
abbrev typeSqltype : UInt8 := 0x74
abbrev typeFunction : UInt8 := 0x66
abbrev typeBareword : UInt8 := 0x6E
abbrev typeNumber : UInt8 := 0x31
abbrev typeVariable : UInt8 := 0x76
abbrev typeString : UInt8 := 0x73
abbrev typeOperator : UInt8 := 0x6F
abbrev typeLogicOperator : UInt8 := 0x26
abbrev typeComment : UInt8 := 0x63
abbrev typeCollate : UInt8 := 0x41
abbrev typeLeftparens : UInt8 := 0x28
abbrev typeRightparens : UInt8 := 0x29
abbrev typeLeftbrace : UInt8 := 0x7B
abbrev typeRightbrace : UInt8 := 0x7D
abbrev typeDot : UInt8 := 0x2E
abbrev typeComma : UInt8 := 0x2C
abbrev typeColon : UInt8 := 0x3A
abbrev typeSemicolon : UInt8 := 0x3B
abbrev typeTsql : UInt8 := 0x54
abbrev typeUnknown : UInt8 := 0x3F
abbrev typeEvil : UInt8 := 0x58
abbrev typeFingerprint : UInt8 := 0x46
abbrev typeBackslash : UInt8 := 0x5C

abbrev charNull : UInt8 := 0
abbrev charSingle : UInt8 := 0x27
abbrev charDouble : UInt8 := 0x22
abbrev charTick : UInt8 := 0x60
abbrev dash : UInt8 := 0x2D
abbrev slash : UInt8 := 0x2F
abbrev star : UInt8 := 0x2A
abbrev hash : UInt8 := 0x23
abbrev dollar : UInt8 := 0x24
abbrev at_ : UInt8 := 0x40
abbrev newline : UInt8 := 0x0A
abbrev underscore : UInt8 := 0x5F

end TokenTypes

section Tokens

/-- `LIBINJECTION_SQLI_TOKEN_SIZE` -/
abbrev tokenSize : ℕ := 32

/-- `stoken_t`; `val` holds all `tokenSize` bytes of the array. -/
structure Token where
  pos : ℕ
  len : ℕ
  count : ℕ
  type : UInt8
  strOpen : UInt8
  strClose : UInt8
  val : Bytes
deriving DecidableEq, Repr

/-- `st_clear` -/
def Token.clear : Token := ⟨0, 0, 0, 0, 0, 0, List.replicate tokenSize 0⟩

def stAssignChar (st : Token) (stype : UInt8) (pos : ℕ) (value : UInt8) : Checked Token := do
  let val ← writeAt st.val 0 value
  let val ← writeAt val 1 charNull
  return { st with type := stype, pos := pos, len := 1, val := val }

def stAssign (st : Token) (stype : UInt8) (pos len : ℕ) (buffer : Bytes) (start : ℕ) :
    Checked Token := do
  let last := if len < tokenSize then len else tokenSize - 1
  let value ← slice buffer start last
  let val ← copyTo st.val 0 value
  let val ← writeAt val last charNull
  return { st with type := stype, pos := pos, len := last, val := val }

def stIsArithmeticOp (st : Token) : Checked Bool := do
  let ch ← readAt st.val 0
  return st.type == typeOperator && st.len == 1 &&
    (ch == 0x2A || ch == 0x2F || ch == 0x2D || ch == 0x2B || ch == 0x25)

/-- `cstrcasecmp(word, st->val, st->len) == 0` -/
def Token.is (st : Token) (word : Bytes) : Checked Bool := do
  let order ← cstrcasecmp word st.val st.len
  return order == 0

def stIsUnaryOp (st : Token) : Checked Bool := do
  if st.type ≠ typeOperator then return false
  match st.len with
  | 1 =>
    let ch ← readAt st.val 0
    return ch == 0x2B || ch == 0x2D || ch == 0x21 || ch == 0x7E
  | 2 =>
    let c0 ← readAt st.val 0
    let c1 ← readAt st.val 1
    return c0 == 0x21 && c1 == 0x21
  | 3 => st.is (bytes "NOT")
  | _ => return false

/-- The C string in an array; without a terminator the search for it leaves the array. -/
def cString (val : Bytes) : Checked Bytes :=
  if 0 ∈ val then .ok (val.takeWhile (· != 0)) else .error .outOfBounds

end Tokens
end WafWasm.LibinjectionTokens
