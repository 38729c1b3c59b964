import WafWasm.LibinjectionFold

set_option autoImplicit false

namespace WafWasm.LibinjectionVerdict
open CheckedMemory Common LibinjectionTokens LibinjectionKeywords LibinjectionParsers
open LibinjectionFold

/-- The state after `libinjection_sqli_fingerprint`; `fingerprint` is its array of eight. -/
structure SqliState where
  sf : Sfilter
  fingerprint : Bytes
deriving DecidableEq, Repr

section Fingerprint
variable (s : Bytes) (table : KeywordTable)

def resetFlags (flags : ℕ) : ℕ := if flags = 0 then flagQuoteNone ||| flagSqlAnsi else flags

/-- The input of a context, as `libinjection_sqli_reset` sets it up. -/
def resetInput (flags : ℕ) : Input := ⟨s, resetFlags flags, table⟩

def resetState : Sfilter := ⟨⟨0, Token.clear, 0, 0, 0⟩, List.replicate 8 Token.clear, 0⟩

/-- The check for a PHP backquote comment. -/
def isBackquoteComment (token : Token) : Bool :=
  token.type == typeBareword && token.strOpen == charTick && token.len == 0 &&
    token.strClose == charNull

def phpComment (tokenvec : List Token) (tlen : ℕ) : Checked (List Token) := do
  if 2 < tlen then
    let token ← readAt tokenvec (tlen - 1)
    if isBackquoteComment token then writeAt tokenvec (tlen - 1) { token with type := typeComment }
    else return tokenvec
  else return tokenvec

/-- `sql_state->fingerprint[i] = sql_state->tokenvec[i].type` for the last `n` indices below
`tlen`. -/
def copyTypes (tokenvec : List Token) (tlen : ℕ) : ℕ → Bytes → Checked Bytes
  | 0, fingerprint => return fingerprint
  | n + 1, fingerprint => do
    let token ← readAt tokenvec (tlen - (n + 1))
    let fingerprint ← writeAt fingerprint (tlen - (n + 1)) token.type
    copyTypes tokenvec tlen n fingerprint

/-- The state of an input that could not be parsed. -/
def evilState (sf : Sfilter) (fingerprint : Bytes) : Checked SqliState := do
  let fingerprint ← copyTo fingerprint 0 (List.replicate (maxTokens + 1) 0)
  let fingerprint ← writeAt fingerprint 0 typeEvil
  let first ← readAt sf.tokenvec 0
  let val ← copyTo first.val 0 (List.replicate tokenSize 0)
  let val ← writeAt val 0 typeEvil
  let tokenvec ← writeAt sf.tokenvec 0 { first with type := typeEvil, val := val }
  let second ← readAt tokenvec 1
  let tokenvec ← writeAt tokenvec 1 { second with type := charNull }
  return ⟨{ sf with tokenvec := tokenvec }, fingerprint⟩

def libinjectionSqliFingerprint (flags : ℕ) : Checked SqliState := do
  let (sf, tlen) ← libinjectionSqliFold (resetInput s table flags) resetState
  let tokenvec ← phpComment sf.tokenvec tlen
  let sf := { sf with tokenvec := tokenvec }
  let fingerprint ← copyTypes tokenvec tlen tlen (List.replicate 8 0)
  let fingerprint ← writeAt fingerprint tlen charNull
  let pattern ← cString fingerprint
  if typeEvil ∈ pattern then evilState sf fingerprint else return ⟨sf, fingerprint⟩

end Fingerprint

section Verdicts
variable (s : Bytes) (table : KeywordTable)

def libinjectionSqliBlacklist (st : SqliState) : Checked Bool := do
  let pattern ← cString st.fingerprint
  if pattern.length < 1 then return false
  else
    let fp2 ← writeAt (List.replicate 8 0) 0 0x30
    let fp2 ← copyTo fp2 1 (pattern.map upper)
    let fp2 ← writeAt fp2 (pattern.length + 1) charNull
    let ch ← isKeyword table fp2 (pattern.length + 1)
    return ch == typeFingerprint

/-- The input after a number and a comment: a space, or the start of a comment, follows the
number's length in the text. -/
def numberComment (number : Token) : Checked Bool := do
  let ch ← readAt s number.len
  if signed ch ≤ 32 then return true
  else if ch = slash then
    let next ← readAt s (number.len + 1)
    return next == star
  else if ch = dash then
    let next ← readAt s (number.len + 1)
    return next == dash
  else return false

/-- `case 2` -/
def pairVerdict (st : SqliState) : Checked Bool := do
  let second ← readAt st.fingerprint 1
  let t0 ← readAt st.sf.tokenvec 0
  let t1 ← readAt st.sf.tokenvec 1
  let opener ← readAt t1.val 0
  if second = typeUnion then return st.sf.scan.statsTokens != 2
  else if opener = hash then return false
  else if t0.type = typeBareword ∧ t1.type = typeComment ∧ opener ≠ slash then return false
  else if t0.type = typeNumber ∧ t1.type = typeComment ∧ opener = slash then return true
  else if t0.type = typeNumber ∧ t1.type = typeComment then
    if 2 < st.sf.scan.statsTokens then return true else numberComment s t0
  else if 2 < t1.len ∧ opener = dash then return false
  else return true

def quotedPatterns : List Bytes := [bytes "sos", bytes "s&s"]

def sexyPatterns : List Bytes := [bytes "s&n", bytes "n&1", bytes "1&1", bytes "1&v", bytes "1&s"]

/-- `case 3` -/
def tripleVerdict (st : SqliState) (pattern : Bytes) : Checked Bool := do
  let t0 ← readAt st.sf.tokenvec 0
  let t1 ← readAt st.sf.tokenvec 1
  let t2 ← readAt st.sf.tokenvec 2
  if pattern ∈ quotedPatterns then
    return t0.strOpen == charNull && t2.strClose == charNull && t0.strClose == t2.strOpen
  else if pattern ∈ sexyPatterns then return st.sf.scan.statsTokens != 3
  else if t1.type = typeKeyword then
    if t1.len < 5 then return false
    else
      let order ← cstrcasecmp (bytes "INTO") t1.val 4
      return order == 0
  else return true

/-- A comment at the end hides the audit of a password. -/
def mentionsPassword (pattern : Bytes) : Checked Bool := do
  if 1 < pattern.length ∧ pattern.getLast? = some typeComment then
    let password ← myMemmem s 0 s.length (bytes "sp_password")
    return password.isSome
  else return false

def libinjectionSqliNotWhitelist (st : SqliState) : Checked Bool := do
  let pattern ← cString st.fingerprint
  if ← mentionsPassword s pattern then return true
  else if pattern.length = 2 then pairVerdict s st
  else if pattern.length = 3 then tripleVerdict st pattern
  else return true

def libinjectionSqliCheckFingerprint (st : SqliState) : Checked Bool := do
  if ← libinjectionSqliBlacklist table st then libinjectionSqliNotWhitelist s st
  else return false

def reparseAsMysql (st : SqliState) : Bool :=
  st.sf.scan.statsCommentDdx != 0 || st.sf.scan.statsCommentHash != 0

/-- The test in one context: the verdict, and whether MySQL would read the input differently. -/
def testContext (flags : ℕ) : Checked (Bool × Bool) := do
  let st ← libinjectionSqliFingerprint s table flags
  let found ← libinjectionSqliCheckFingerprint s table st
  return (found, reparseAsMysql st)

/-- The test in ANSI mode, and after it in MySQL mode where the two differ. -/
def testQuote (quote : ℕ) : Checked Bool := do
  let (found, reparse) ← testContext s table (quote ||| flagSqlAnsi)
  if found then return true
  else if reparse then
    let (found, _) ← testContext s table (quote ||| flagSqlMysql)
    return found
  else return false

def testSingle : Checked Bool := do
  let quote ← memchr s 0 s.length charSingle
  if quote.isSome then testQuote s table flagQuoteSingle else return false

def testDouble : Checked Bool := do
  let quote ← memchr s 0 s.length charDouble
  if quote.isSome then
    let (found, _) ← testContext s table (flagQuoteDouble ||| flagSqlMysql)
    return found
  else return false

def libinjectionIsSqli : Checked Bool := do
  if s.length = 0 then return false
  else if ← testQuote s table flagQuoteNone then return true
  else if ← testSingle s table then return true
  else testDouble s table

end Verdicts

/-- `detectSQLi` of the filter; a fault is not a detection. -/
def detectSQLi (table : KeywordTable) (input : Bytes) : Bool :=
  match libinjectionIsSqli input table with
  | .ok found => found
  | .error _ => false

end WafWasm.LibinjectionVerdict
