import WafWasm.LibinjectionParsers

set_option autoImplicit false

namespace WafWasm.LibinjectionFold
open CheckedMemory Common LibinjectionTokens LibinjectionKeywords LibinjectionParsers

/-- `LIBINJECTION_SQLI_MAX_TOKENS` -/
abbrev maxTokens : ℕ := 5

structure Sfilter where
  scan : Scan
  tokenvec : List Token
  statsFolds : ℕ
deriving DecidableEq, Repr

structure Folding where
  sf : Sfilter
  lastComment : Token
  pos : ℕ
  left : ℕ
  more : Bool
deriving DecidableEq, Repr

section Slots
variable (inp : Input)

/-- `sf->current = &(sf->tokenvec[i]); more = libinjection_sqli_tokenize(sf)` -/
def tokenizeAt (sf : Sfilter) (i : ℕ) : Checked (Bool × Sfilter) := do
  let slot ← readAt sf.tokenvec i
  let (more, scan) ← libinjectionSqliTokenize inp { sf.scan with current := slot }
  let tokenvec ← writeAt sf.tokenvec i scan.current
  return (more, { sf with scan := scan, tokenvec := tokenvec })

def Folding.put (f : Folding) (i : ℕ) (token : Token) : Checked Folding := do
  let tokenvec ← writeAt f.sf.tokenvec i token
  return { f with sf := { f.sf with tokenvec := tokenvec } }

/-- `pos -= n`, with `stats_folds += folds` and a new `left`. -/
def Folding.drop (f : Folding) (n folds left : ℕ) : Checked Folding := do
  let pos ← minus f.pos n
  return { f with sf := { f.sf with statsFolds := f.sf.statsFolds + folds },
                  pos := pos, left := left }

end Slots

section Merging
variable (inp : Input)

def mergeableFirst : List UInt8 :=
  [typeKeyword, typeBareword, typeOperator, typeUnion, typeFunction, typeExpression, typeTsql,
    typeSqltype]

def mergeableSecond : List UInt8 := mergeableFirst ++ [typeLogicOperator]

/-- The merged first token, when the two words make a phrase of the table. -/
def syntaxMergeWords (a b : Token) : Checked (Option Token) := do
  if a.type ∉ mergeableFirst ∨ b.type ∉ mergeableSecond then return none
  else
    let sz3 := a.len + b.len + 1
    if tokenSize ≤ sz3 then return none
    else
      let first ← slice a.val 0 a.len
      let tmp ← copyTo (List.replicate tokenSize 0) 0 first
      let tmp ← writeAt tmp a.len space
      let second ← slice b.val 0 b.len
      let tmp ← copyTo tmp (a.len + 1) second
      let tmp ← writeAt tmp sz3 charNull
      let ch ← isKeyword inp.keywords tmp sz3
      if ch ≠ charNull then
        let merged ← stAssign a ch a.pos sz3 tmp 0
        return some merged
      else return none

end Merging

section Pairs

def functionNames : List Bytes :=
  [bytes "USER_ID", bytes "USER_NAME", bytes "DATABASE", bytes "PASSWORD", bytes "USER",
    bytes "CURRENT_USER", bytes "CURRENT_DATE", bytes "CURRENT_TIME", bytes "CURRENT_TIMESTAMP",
    bytes "LOCALTIME", bytes "LOCALTIMESTAMP"]

def Token.isAny (st : Token) : List Bytes → Checked Bool
  | [] => return false
  | word :: words => do
    if ← st.is word then return true else isAny st words

/-- What the conditions on two tokens ask beyond their types. -/
structure PairFacts where
  unary : Bool
  merged : Option Token
  startsIf : Bool
  functionName : Bool
  isIn : Bool
  isLike : Bool
  underscore : Bool
  arithmetic : Bool
deriving DecidableEq, Repr

inductive PairFold where
  /-- `pos -= 1`, with the new `left` -/
  | dropSecond (left : ℕ)
  | merge (merged : Token) (left : ℕ)
  /-- the second token moves into the slot of the first -/
  | replaceFirst
  | retypeSecond (stype : UInt8)
  | retypeFirst (stype : UInt8) (left : ℕ)
  | evil
  | dropBoth
  /-- no `continue` after these three -/
  | likeFunction
  | collation
  | keep
deriving DecidableEq, Repr

variable (inp : Input)

def pairFacts (a b : Token) : Checked PairFacts := do
  let unary ← stIsUnaryOp b
  let merged ← syntaxMergeWords inp a b
  let c0 ← readAt b.val 0
  let c1 ← readAt b.val 1
  let functionName ← Token.isAny a functionNames
  let isIn ← Token.isAny a [bytes "IN", bytes "NOT IN"]
  let isLike ← Token.isAny a [bytes "LIKE", bytes "NOT LIKE"]
  let text ← cString b.val
  let arithmetic ← stIsArithmeticOp b
  return {
    unary := unary
    merged := merged
    startsIf := (c0 == 0x49 || c0 == 0x69) && (c1 == 0x46 || c1 == 0x66)
    functionName := functionName
    isIn := isIn
    isLike := isLike
    underscore := text.contains underscore
    arithmetic := arithmetic }

def sqltypeOperands : List UInt8 :=
  [typeBareword, typeNumber, typeSqltype, typeLeftparens, typeFunction, typeVariable, typeString]

def pairFold (left : ℕ) (a b : Token) (facts : PairFacts) : PairFold :=
  if a.type = typeString ∧ b.type = typeString then .dropSecond left
  else if a.type = typeSemicolon ∧ b.type = typeSemicolon then .dropSecond left
  else if (a.type = typeOperator ∨ a.type = typeLogicOperator) ∧
      (facts.unary ∨ b.type = typeSqltype) then .dropSecond 0
  else if a.type = typeLeftparens ∧ facts.unary then .dropSecond (left - 1)
  else if let some merged := facts.merged then .merge merged (left - 1)
  else if a.type = typeSemicolon ∧ b.type = typeFunction ∧ facts.startsIf then
    .retypeSecond typeTsql
  else if (a.type = typeBareword ∨ a.type = typeVariable) ∧ b.type = typeLeftparens ∧
      facts.functionName then .retypeFirst typeFunction left
  else if a.type = typeKeyword ∧ facts.isIn then
    .retypeFirst (if b.type = typeLeftparens then typeOperator else typeBareword) left
  else if a.type = typeOperator ∧ facts.isLike then
    if b.type = typeLeftparens then .likeFunction else .keep
  else if a.type = typeSqltype ∧ b.type ∈ sqltypeOperands then .replaceFirst
  else if a.type = typeCollate ∧ b.type = typeBareword then
    if facts.underscore then .collation else .keep
  else if a.type = typeBackslash then
    if facts.arithmetic then .retypeFirst typeNumber 0 else .replaceFirst
  else if a.type = typeLeftparens ∧ b.type = typeLeftparens then .dropSecond 0
  else if a.type = typeRightparens ∧ b.type = typeRightparens then .dropSecond 0
  else if a.type = typeLeftbrace ∧ b.type = typeBareword then
    if b.len = 0 then .evil else .dropBoth
  else if b.type = typeRightbrace then .dropSecond 0
  else .keep

/-- What a fold does next: `continue`, the code below it, or `return`. -/
inductive Step where
  | next (f : Folding)
  | fall (f : Folding)
  | stop (sf : Sfilter) (n : ℕ)

def foldTwo (f : Folding) : Checked Step := do
  let a ← readAt f.sf.tokenvec f.left
  let b ← readAt f.sf.tokenvec (f.left + 1)
  let facts ← pairFacts inp a b
  match pairFold f.left a b facts with
  | .dropSecond left =>
    let f ← f.drop 1 1 left
    return .next f
  | .merge merged left =>
    let f ← f.put f.left merged
    let f ← f.drop 1 1 left
    return .next f
  | .replaceFirst =>
    let f ← f.put f.left b
    let f ← f.drop 1 1 0
    return .next f
  | .retypeSecond stype =>
    let f ← f.put (f.left + 1) { b with type := stype }
    return .next f
  | .retypeFirst stype left =>
    let f ← f.put f.left { a with type := stype }
    return .next { f with left := left }
  | .evil =>
    let f ← f.put (f.left + 1) { b with type := typeEvil }
    return .stop f.sf (f.left + 2)
  | .dropBoth =>
    let f ← f.drop 2 2 0
    return .next f
  | .likeFunction =>
    let f ← f.put f.left { a with type := typeFunction }
    return .fall f
  | .collation =>
    let f ← f.put (f.left + 1) { b with type := typeSqltype }
    return .fall { f with left := 0 }
  | .keep => return .fall f

end Pairs

section Triples

inductive TripleFold where
  /-- `pos -= 2; left = 0` -/
  | dropTwo (folds : ℕ)
  /-- the same, after `assert(pos >= 3)` -/
  | dropDot
  /-- the third token moves into the slot of the second; `pos -= 1; left = 0` -/
  | dropSecond
  /-- the same with `pos -= 3`, after `assert(pos >= 3)` -/
  | dropSign
  | userWord
  | keep
deriving DecidableEq, Repr

/-- The fold of three types; `unary` and `cast` are about the second token, `user` about the
first. -/
def tripleFold (a b c : UInt8) (unary cast user : Bool) : TripleFold :=
  if a = typeNumber ∧ b = typeOperator ∧ c = typeNumber then .dropTwo 0
  else if a = typeOperator ∧ b ≠ typeLeftparens ∧ c = typeOperator then .dropTwo 0
  else if a = typeLogicOperator ∧ c = typeLogicOperator then .dropTwo 0
  else if a = typeVariable ∧ b = typeOperator ∧
      c ∈ [typeVariable, typeNumber, typeBareword] then .dropTwo 0
  else if a ∈ [typeBareword, typeNumber] ∧ b = typeOperator ∧
      c ∈ [typeNumber, typeBareword] then .dropTwo 0
  else if a ∈ [typeBareword, typeNumber, typeVariable, typeString] ∧ b = typeOperator ∧ cast ∧
      c = typeSqltype then .dropTwo 2
  else if a ∈ [typeBareword, typeNumber, typeString, typeVariable] ∧ b = typeComma ∧
      c ∈ [typeNumber, typeBareword, typeString, typeVariable] then .dropTwo 0
  else if a ∈ [typeExpression, typeGroup, typeComma] ∧ unary ∧ c = typeLeftparens then .dropSecond
  else if a ∈ [typeKeyword, typeExpression, typeGroup] ∧ unary ∧
      c ∈ [typeNumber, typeBareword, typeVariable, typeString, typeFunction] then .dropSecond
  else if a = typeComma ∧ unary ∧
      c ∈ [typeNumber, typeBareword, typeVariable, typeString] then .dropSign
  else if a = typeComma ∧ unary ∧ c = typeFunction then .dropSecond
  else if a = typeBareword ∧ b = typeDot ∧ c = typeBareword then .dropDot
  else if a = typeExpression ∧ b = typeDot ∧ c = typeBareword then .dropSecond
  else if a = typeFunction ∧ b = typeLeftparens ∧ c ≠ typeRightparens then
    if user then .userWord else .keep
  else .keep

def foldThree (f : Folding) : Checked Step := do
  let a ← readAt f.sf.tokenvec f.left
  let b ← readAt f.sf.tokenvec (f.left + 1)
  let c ← readAt f.sf.tokenvec (f.left + 2)
  let unary ← stIsUnaryOp b
  let text ← cString b.val
  let user ← a.is (bytes "USER")
  match tripleFold a.type b.type c.type unary (text == bytes "::") user with
  | .dropTwo folds =>
    let f ← f.drop 2 folds 0
    return .next f
  | .dropDot =>
    require (3 ≤ f.pos)
    let f ← f.drop 2 0 0
    return .next f
  | .dropSecond =>
    let f ← f.put (f.left + 1) c
    let f ← f.drop 1 0 0
    return .next f
  | .dropSign =>
    let f ← f.put (f.left + 1) c
    require (3 ≤ f.pos)
    let f ← f.drop 3 0 0
    return .next f
  | .userWord =>
    let f ← f.put f.left { a with type := typeBareword }
    return .fall f
  | .keep => return .fall f

end Triples

section Loop
variable (inp : Input)

/-- The four shapes of five tokens after which folding starts over. -/
def fiveTokens (t0 t1 t2 t3 t4 : UInt8) : Bool :=
  (t0 = typeNumber ∧ (t1 = typeOperator ∨ t1 = typeComma) ∧ t2 = typeLeftparens ∧
    t3 = typeNumber ∧ t4 = typeRightparens) ∨
  (t0 = typeBareword ∧ t1 = typeOperator ∧ t2 = typeLeftparens ∧
    (t3 = typeBareword ∨ t3 = typeNumber) ∧ t4 = typeRightparens) ∨
  (t0 = typeNumber ∧ t1 = typeRightparens ∧ t2 = typeComma ∧ t3 = typeLeftparens ∧
    t4 = typeNumber) ∨
  (t0 = typeBareword ∧ t1 = typeRightparens ∧ t2 = typeOperator ∧ t3 = typeLeftparens ∧
    t4 = typeBareword)

def foldFive (f : Folding) : Checked Folding := do
  if f.pos < maxTokens then return f
  else
    let t0 ← readAt f.sf.tokenvec 0
    let t1 ← readAt f.sf.tokenvec 1
    let t2 ← readAt f.sf.tokenvec 2
    let t3 ← readAt f.sf.tokenvec 3
    let t4 ← readAt f.sf.tokenvec 4
    if fiveTokens t0.type t1.type t2.type t3.type t4.type then
      if maxTokens < f.pos then
        let sixth ← readAt f.sf.tokenvec maxTokens
        let f ← f.put 1 sixth
        return { f with pos := 2, left := 0 }
      else return { f with pos := 1, left := 0 }
    else return f

/-- One turn of `while (more && pos <= LIBINJECTION_SQLI_MAX_TOKENS && (pos - left) < n)`. -/
def fetchTurn (n : ℕ) (f : Folding) : Checked (Folding ⊕ Folding) := do
  let gap ← minus f.pos f.left
  if f.more ∧ f.pos ≤ maxTokens ∧ gap < n then
    let (more, sf) ← tokenizeAt inp f.sf f.pos
    let token ← readAt sf.tokenvec f.pos
    if !more then return .inl { f with sf := sf, more := more }
    else if token.type = typeComment then
      return .inl { f with sf := sf, more := more, lastComment := token }
    else
      return .inl { f with sf := sf, more := more, pos := f.pos + 1,
                           lastComment := { f.lastComment with type := charNull } }
  else return .inr f

def fetch (n : ℕ) (f : Folding) : Checked Folding := loop (fetchTurn inp n) (inp.s.length + 3) f

/-- The code after the loop: a comment at the end comes back, a sixth token goes. -/
def finish (f : Folding) : Checked (Sfilter × ℕ) := do
  if f.left < maxTokens ∧ f.lastComment.type = typeComment then
    let f ← f.put f.left f.lastComment
    return (f.sf, min (f.left + 1) maxTokens)
  else return (f.sf, min f.left maxTokens)

def foldTurn (f : Folding) : Checked (Folding ⊕ (Sfilter × ℕ)) := do
  let f ← foldFive f
  if !f.more ∨ maxTokens ≤ f.left then
    let result ← finish { f with left := f.pos }
    return .inr result
  else
    let f ← fetch inp 2 f
    let gap ← minus f.pos f.left
    if gap < 2 then return .inl { f with left := f.pos }
    else
      match ← foldTwo inp f with
      | .next f => return .inl f
      | .stop sf n => return .inr (sf, n)
      | .fall f =>
        let f ← fetch inp 3 f
        let gap ← minus f.pos f.left
        if gap < 3 then return .inl { f with left := f.pos }
        else
          match ← foldThree f with
          | .next f => return .inl f
          | .stop sf n => return .inr (sf, n)
          | .fall f => return .inl { f with left := f.left + 1 }

/-- The loop over the comments, parentheses, types and unary operators at the start. -/
def skipTurn (sf : Sfilter) : Checked (Sfilter ⊕ (Bool × Sfilter)) := do
  let (more, sf) ← tokenizeAt inp sf 0
  let token ← readAt sf.tokenvec 0
  let unary ← stIsUnaryOp token
  if token.type = typeComment ∨ token.type = typeLeftparens ∨ token.type = typeSqltype ∨ unary then
    if more then return .inl sf else return .inr (more, sf)
  else return .inr (more, sf)

/-- Turns that suffice for the main loop. -/
def foldFuel (slen : ℕ) : ℕ := 512 * (2 * slen + 8)

def libinjectionSqliFold (sf : Sfilter) : Checked (Sfilter × ℕ) := do
  let (more, sf) ← loop (skipTurn inp) (inp.s.length + 2) sf
  if !more then return (sf, 0)
  else
    loop (foldTurn inp) (foldFuel inp.s.length)
      { sf := sf, lastComment := Token.clear, pos := 1, left := 0, more := more }

end Loop
end WafWasm.LibinjectionFold
