import WafWasm.LibinjectionKeywords

set_option autoImplicit false

/-!
# libinjection: the parsers and the tokenizer

A parser returns the new position with the state it leaves. `current` is the token that the
pointer of that name leads to; the caller puts it into its slot.
-/
namespace WafWasm.LibinjectionParsers
open CheckedMemory Common LibinjectionTokens LibinjectionKeywords

section State

abbrev flagQuoteNone : ℕ := 1
abbrev flagQuoteSingle : ℕ := 2
abbrev flagQuoteDouble : ℕ := 4
abbrev flagSqlAnsi : ℕ := 8
abbrev flagSqlMysql : ℕ := 16

/-- What the parsers only read of `libinjection_sqli_state`; `slen` is the length of `s`. -/
structure Input where
  s : Bytes
  flags : ℕ
  keywords : KeywordTable

def Input.has (inp : Input) (flag : ℕ) : Bool := inp.flags &&& flag != 0

/-- What the parsers write of it. -/
structure Scan where
  pos : ℕ
  current : Token
  statsCommentDdx : ℕ
  statsCommentHash : ℕ
  statsTokens : ℕ
deriving DecidableEq, Repr

def flag2delim (inp : Input) : UInt8 :=
  if inp.has flagQuoteSingle then charSingle
  else if inp.has flagQuoteDouble then charDouble
  else charNull

end State

section Helpers
variable (inp : Input)

/-- `c && x`, where `x` reads the input. -/
def andThen (c : Prop) [Decidable c] (x : Checked Bool) : Checked Bool :=
  if c then x else return false

/-- `cs[i]`, `cs[i + 1]`, … pass the tests; each is read only when those before it pass. -/
def passes : ℕ → List (UInt8 → Bool) → Checked Bool
  | _, [] => return true
  | i, test :: tests => do
    let ch ← readAt inp.s i
    if test ch then passes (i + 1) tests else return false

def Scan.assignChar (sf : Scan) (stype : UInt8) (pos : ℕ) (value : UInt8) : Checked Scan := do
  let current ← stAssignChar sf.current stype pos value
  return { sf with current := current }

/-- `st_assign(sf->current, stype, pos, len, cs + pos)` -/
def Scan.assign (sf : Scan) (stype : UInt8) (pos len : ℕ) : Checked Scan := do
  let current ← stAssign sf.current stype pos len inp.s pos
  return { sf with current := current }

/-- `while (pos < slen && ISDIGIT(cs[pos])) pos += 1` -/
def skipDigits (pos : ℕ) : ℕ := pos + ((inp.s.drop pos).takeWhile isDigit).length

end Helpers

section Symbols
variable (inp : Input) (sf : Scan)

def parseWhite : Checked (ℕ × Scan) := return (sf.pos + 1, sf)

def parseOperator1 : Checked (ℕ × Scan) := do
  let ch ← readAt inp.s sf.pos
  let sf' ← sf.assignChar typeOperator sf.pos ch
  return (sf.pos + 1, sf')

def parseOther : Checked (ℕ × Scan) := do
  let ch ← readAt inp.s sf.pos
  let sf' ← sf.assignChar typeUnknown sf.pos ch
  return (sf.pos + 1, sf')

def parseChar : Checked (ℕ × Scan) := do
  let ch ← readAt inp.s sf.pos
  let sf' ← sf.assignChar ch sf.pos ch
  return (sf.pos + 1, sf')

def parseEolComment : Checked (ℕ × Scan) := do
  let rest ← minus inp.s.length sf.pos
  match ← memchr inp.s sf.pos rest newline with
  | none =>
    let sf' ← sf.assign inp typeComment sf.pos rest
    return (inp.s.length, sf')
  | some endpos =>
    let len ← minus endpos sf.pos
    let sf' ← sf.assign inp typeComment sf.pos len
    return (endpos + 1, sf')

def parseHash : Checked (ℕ × Scan) := do
  let sf := { sf with statsCommentHash := sf.statsCommentHash + 1 }
  if inp.has flagSqlMysql then
    parseEolComment inp { sf with statsCommentHash := sf.statsCommentHash + 1 }
  else
    let sf' ← sf.assignChar typeOperator sf.pos hash
    return (sf.pos + 1, sf')

def parseDash : Checked (ℕ × Scan) := do
  let white ← andThen (sf.pos + 2 < inp.s.length)
    (passes inp (sf.pos + 1) [(· == dash), charIsWhite])
  if white then parseEolComment inp sf
  else
    let atEnd ← andThen (sf.pos + 2 = inp.s.length) (passes inp (sf.pos + 1) [(· == dash)])
    if atEnd then parseEolComment inp sf
    else
      let other ← andThen (sf.pos + 1 < inp.s.length) (passes inp (sf.pos + 1) [(· == dash)])
      if other && inp.has flagSqlAnsi then
        parseEolComment inp { sf with statsCommentDdx := sf.statsCommentDdx + 1 }
      else
        let sf' ← sf.assignChar typeOperator sf.pos dash
        return (sf.pos + 1, sf')

def isMysqlComment (pos : ℕ) : Checked Bool :=
  andThen (pos + 2 < inp.s.length) (passes inp (pos + 2) [(· == 0x21)])

def parseSlash : Checked (ℕ × Scan) := do
  let starred ← andThen (sf.pos + 1 ≠ inp.s.length) (passes inp (sf.pos + 1) [(· == star)])
  if !starred then parseOperator1 inp sf
  else
    let rest ← minus inp.s.length (sf.pos + 2)
    match ← memchr2 inp.s (sf.pos + 2) rest star slash with
    | none =>
      -- `ptr` is NULL: the length `ptr - (cur + 1)` wraps to one that ends at address zero, and
      -- the search for a nested comment sees nothing
      let clen ← minus inp.s.length sf.pos
      let conditional ← isMysqlComment inp sf.pos
      let sf' ← sf.assign inp (if conditional then typeEvil else typeComment) sf.pos clen
      return (sf.pos + clen, sf')
    | some ptr =>
      let clen ← minus (ptr + 2) sf.pos
      let inner ← minus ptr (sf.pos + 1)
      let nested ← memchr2 inp.s (sf.pos + 2) inner slash star
      let conditional ← isMysqlComment inp sf.pos
      let ctype := if nested.isSome || conditional then typeEvil else typeComment
      let sf' ← sf.assign inp ctype sf.pos clen
      return (sf.pos + clen, sf')

def parseBackslash : Checked (ℕ × Scan) := do
  let null ← andThen (sf.pos + 1 < inp.s.length) (passes inp (sf.pos + 1) [(· == 0x4E)])
  if null then
    let sf' ← sf.assign inp typeNumber sf.pos 2
    return (sf.pos + 2, sf')
  else
    let ch ← readAt inp.s sf.pos
    let sf' ← sf.assignChar typeBackslash sf.pos ch
    return (sf.pos + 1, sf')

def parseOperator2 : Checked (ℕ × Scan) := do
  if inp.s.length ≤ sf.pos + 1 then parseOperator1 inp sf
  else
    let spaceship ← andThen (sf.pos + 2 < inp.s.length)
      (passes inp sf.pos [(· == 0x3C), (· == 0x3D), (· == 0x3E)])
    if spaceship then
      let sf' ← sf.assign inp typeOperator sf.pos 3
      return (sf.pos + 3, sf')
    else
      let ch ← isKeyword inp.keywords (inp.s.drop sf.pos) 2
      if ch ≠ charNull then
        let sf' ← sf.assign inp ch sf.pos 2
        return (sf.pos + 2, sf')
      else
        let first ← readAt inp.s sf.pos
        if first = 0x3A then
          let sf' ← sf.assign inp typeColon sf.pos 1
          return (sf.pos + 1, sf')
        else parseOperator1 inp sf

end Symbols

section Strings
variable (inp : Input)

/-- The text from `start` to `qpos` ends in an odd number of backslashes. -/
def isBackslashEscaped (start qpos : ℕ) : Checked Bool := do
  let n ← minus qpos start
  let text ← slice inp.s start n
  return (text.reverse.takeWhile (· == typeBackslash)).length % 2 == 1

def isDoubleDelimEscaped (delim : UInt8) (cur : ℕ) : Checked Bool :=
  andThen (cur + 1 < inp.s.length) (passes inp (cur + 1) [(· == delim)])

/-- One turn of the search for the closing delimiter, from the candidate `qpos`. -/
def stringTurn (start : ℕ) (delim : UInt8) : Option ℕ → Checked (Option ℕ ⊕ Option ℕ)
  | none => return .inr none
  | some qpos => do
    if ← isBackslashEscaped inp start qpos then
      let rest ← minus inp.s.length (qpos + 1)
      let next ← memchr inp.s (qpos + 1) rest delim
      return .inl next
    else if ← isDoubleDelimEscaped inp delim qpos then
      let rest ← minus inp.s.length (qpos + 2)
      let next ← memchr inp.s (qpos + 2) rest delim
      return .inl next
    else return .inr (some qpos)

def parseStringCore (pos : ℕ) (st : Token) (delim : UInt8) (offset : ℕ) :
    Checked (ℕ × Token) := do
  let rest ← minus inp.s.length (pos + offset)
  let qpos ← memchr inp.s (pos + offset) rest delim
  let st := { st with strOpen := if 0 < offset then delim else charNull }
  match ← loop (stringTurn inp (pos + offset) delim) (inp.s.length + 2) qpos with
  | none =>
    let st ← stAssign st typeString (pos + offset) rest inp.s (pos + offset)
    return (inp.s.length, { st with strClose := charNull })
  | some qpos =>
    let len ← minus qpos (pos + offset)
    let st ← stAssign st typeString (pos + offset) len inp.s (pos + offset)
    return (qpos + 1, { st with strClose := delim })

def Scan.stringCore (sf : Scan) (delim : UInt8) (offset : ℕ) : Checked (ℕ × Scan) := do
  let (pos, current) ← parseStringCore inp sf.pos sf.current delim offset
  return (pos, { sf with current := current })

variable (sf : Scan)

def parseString : Checked (ℕ × Scan) := do
  let delim ← readAt inp.s sf.pos
  sf.stringCore inp delim 1

end Strings

section Words
variable (inp : Input) (sf : Scan)

/-- Where a word ends: `" []{}<>:\\?=@!#~+-*/&|^%(),';\t\n\v\f\r\"\240\000"`. -/
def wordDelimiters : Bytes :=
  bytes " []\x7b\x7d<>:\\?=@!#~+-*/&|^%(),';\t\n\x0b\x0c\r\"" ++ [0xA0, 0x00]

/-- A `.` or a tick at `i`, with the type of the keyword before it. -/
def splitTurn (current : Token) (i : ℕ) : Checked (ℕ ⊕ Option (ℕ × UInt8)) := do
  if i < current.len then
    let delim ← readAt current.val i
    if delim = typeDot ∨ delim = charTick then
      let ch ← isKeyword inp.keywords current.val i
      if ch ≠ typeNone ∧ ch ≠ typeBareword then return .inr (some (i, ch)) else return .inl (i + 1)
    else return .inl (i + 1)
  else return .inr none

def parseWord : Checked (ℕ × Scan) := do
  let rest ← minus inp.s.length sf.pos
  let wlen ← strlencspn inp.s sf.pos rest wordDelimiters
  let sf' ← sf.assign inp typeBareword sf.pos wlen
  match ← loop (splitTurn inp sf'.current) (tokenSize + 1) 0 with
  | some (i, ch) =>
    let sf' ← { sf' with current := Token.clear }.assign inp ch sf.pos i
    return (sf.pos + i, sf')
  | none =>
    if wlen < tokenSize then
      let ch ← isKeyword inp.keywords sf'.current.val wlen
      let stype := if ch = charNull then typeBareword else ch
      return (sf.pos + wlen, { sf' with current := { sf'.current with type := stype } })
    else return (sf.pos + wlen, sf')

def parseEstring : Checked (ℕ × Scan) := do
  let quoted ← andThen (sf.pos + 2 < inp.s.length) (passes inp (sf.pos + 1) [(· == charSingle)])
  if quoted then sf.stringCore inp charSingle 2 else parseWord inp sf

def parseUstring : Checked (ℕ × Scan) := do
  let quoted ← andThen (sf.pos + 2 < inp.s.length)
    (passes inp (sf.pos + 1) [(· == 0x26), (· == charSingle)])
  if quoted then
    let (pos, sf') ← parseString inp { sf with pos := sf.pos + 2 }
    let close := if sf'.current.strClose = charSingle then 0x75 else sf'.current.strClose
    return (pos, { sf' with current := { sf'.current with strOpen := 0x75, strClose := close } })
  else parseWord inp sf

def closingBracket (ch : UInt8) : UInt8 :=
  if ch = 0x28 then 0x29 else if ch = 0x5B then 0x5D
  else if ch = 0x7B then 0x7D else if ch = 0x3C then 0x3E else ch

def parseQstringCore (offset : ℕ) : Checked (ℕ × Scan) := do
  let pos := sf.pos + offset
  let named ← andThen (pos < inp.s.length) (passes inp pos [fun ch => ch == 0x71 || ch == 0x51])
  let quoted ← andThen (named ∧ pos + 2 < inp.s.length) (passes inp (pos + 1) [(· == charSingle)])
  if !quoted then parseWord inp sf
  else
    let ch ← readAt inp.s (pos + 2)
    if signed ch < 33 then parseWord inp sf
    else
      let rest ← minus inp.s.length (pos + 3)
      match ← memchr2 inp.s (pos + 3) rest (closingBracket ch) charSingle with
      | none =>
        let sf' ← sf.assign inp typeString (pos + 3) rest
        return (inp.s.length,
          { sf' with current := { sf'.current with strOpen := 0x71, strClose := charNull } })
      | some strend =>
        let len ← minus strend (pos + 3)
        let sf' ← sf.assign inp typeString (pos + 3) len
        return (strend + 2,
          { sf' with current := { sf'.current with strOpen := 0x71, strClose := 0x71 } })

def parseQstring : Checked (ℕ × Scan) := parseQstringCore inp sf 0

def parseNqstring : Checked (ℕ × Scan) := do
  let quoted ← andThen (sf.pos + 2 < inp.s.length) (passes inp (sf.pos + 1) [(· == charSingle)])
  if quoted then parseEstring inp sf else parseQstringCore inp sf 1

/-- `parse_bstring` and `parse_xstring`: a quoted run of `digits` is a number. -/
def parseDigitString (digits : Bytes) : Checked (ℕ × Scan) := do
  let quoted ← andThen (sf.pos + 2 < inp.s.length) (passes inp (sf.pos + 1) [(· == charSingle)])
  if !quoted then parseWord inp sf
  else
    let rest ← minus inp.s.length (sf.pos + 2)
    let wlen ← strlenspn inp.s (sf.pos + 2) rest digits
    let closed ← andThen (sf.pos + 2 + wlen < inp.s.length)
      (passes inp (sf.pos + 2 + wlen) [(· == charSingle)])
    if !closed then parseWord inp sf
    else
      let sf' ← sf.assign inp typeNumber sf.pos (wlen + 3)
      return (sf.pos + 2 + wlen + 1, sf')

def binaryDigits : Bytes := bytes "01"

def hexDigits : Bytes := bytes "0123456789ABCDEFabcdef"

def parseBstring : Checked (ℕ × Scan) := parseDigitString inp sf binaryDigits

def parseXstring : Checked (ℕ × Scan) := parseDigitString inp sf hexDigits

def parseBword : Checked (ℕ × Scan) := do
  let rest ← minus inp.s.length sf.pos
  match ← memchr inp.s sf.pos rest 0x5D with
  | none =>
    let sf' ← sf.assign inp typeBareword sf.pos rest
    return (inp.s.length, sf')
  | some endptr =>
    let len ← minus endptr sf.pos
    let sf' ← sf.assign inp typeBareword sf.pos (len + 1)
    return (endptr + 1, sf')

def parseTick : Checked (ℕ × Scan) := do
  let (pos, sf') ← sf.stringCore inp charTick 1
  let ch ← isKeyword inp.keywords sf'.current.val sf'.current.len
  let stype := if ch = typeFunction then typeFunction else typeBareword
  return (pos, { sf' with current := { sf'.current with type := stype } })

/-- Where a variable ends: `" <>:\\?=@!#~+-*/&|^%(),';\t\n\v\f\r'`\""`. -/
def varDelimiters : Bytes := bytes " <>:\\?=@!#~+-*/&|^%(),';\t\n\x0b\x0c\r'`\""

def Scan.asVariable (sf : Scan) : Scan :=
  { sf with current := { sf.current with type := typeVariable } }

def parseVar : Checked (ℕ × Scan) := do
  let doubled ← andThen (sf.pos + 1 < inp.s.length) (passes inp (sf.pos + 1) [(· == at_)])
  let pos := if doubled then sf.pos + 2 else sf.pos + 1
  let sf := { sf with current := { sf.current with count := if doubled then 2 else 1 } }
  let ticked ← andThen (pos < inp.s.length) (passes inp pos [(· == charTick)])
  let quoted ← andThen (pos < inp.s.length)
    (passes inp pos [fun ch => ch == charSingle || ch == charDouble])
  if ticked then
    let (stop, sf') ← parseTick inp { sf with pos := pos }
    return (stop, sf'.asVariable)
  else if quoted then
    let (stop, sf') ← parseString inp { sf with pos := pos }
    return (stop, sf'.asVariable)
  else
    let rest ← minus inp.s.length pos
    let xlen ← strlencspn inp.s pos rest varDelimiters
    let sf' ← sf.assign inp typeVariable pos xlen
    return (pos + xlen, sf')

end Words

section Money
variable (inp : Input) (sf : Scan)

def amountChars : Bytes := bytes "0123456789.,"

def letters : Bytes := bytes "abcdefghjiklmnopqrstuvwxyzABCDEFGHIJKLMNOPQRSTUVWXYZ"

/-- A string in dollars: from `start` to `strend`, or to the end of the input. -/
def dollarString (start : ℕ) (strend : Option ℕ) (closer : ℕ) : Checked (ℕ × Scan) := do
  match strend with
  | none =>
    let rest ← minus inp.s.length start
    let sf' ← sf.assign inp typeString start rest
    return (inp.s.length,
      { sf' with current := { sf'.current with strOpen := dollar, strClose := charNull } })
  | some strend =>
    let len ← minus strend start
    let sf' ← sf.assign inp typeString start len
    return (strend + closer,
      { sf' with current := { sf'.current with strOpen := dollar, strClose := dollar } })

def loneDollar : Checked (ℕ × Scan) := do
  let sf' ← sf.assignChar typeBareword sf.pos dollar
  return (sf.pos + 1, sf')

/-- `$tag$`, with `xlen` letters in the tag. -/
def parseTagged (xlen : ℕ) : Checked (ℕ × Scan) := do
  let closed ← andThen (sf.pos + xlen + 1 ≠ inp.s.length)
    (passes inp (sf.pos + xlen + 1) [(· == dollar)])
  if !closed then loneDollar sf
  else
    let hlen ← minus inp.s.length (sf.pos + xlen + 2)
    let tag ← slice inp.s sf.pos (xlen + 2)
    -- the search starts at `cs + xlen + 2`, without `pos`
    let strend ← myMemmem inp.s (xlen + 2) hlen tag
    dollarString inp sf (sf.pos + xlen + 2) (strend.filter (sf.pos + xlen + 2 ≤ ·)) (xlen + 2)

def parseMoney : Checked (ℕ × Scan) := do
  if sf.pos + 1 = inp.s.length then
    let sf' ← sf.assignChar typeBareword sf.pos dollar
    return (inp.s.length, sf')
  else
    let rest ← minus inp.s.length (sf.pos + 1)
    let xlen ← strlenspn inp.s (sf.pos + 1) rest amountChars
    let next ← readAt inp.s (sf.pos + 1)
    if xlen = 0 then
      if next = dollar then
        let rest ← minus inp.s.length (sf.pos + 2)
        let strend ← memchr2 inp.s (sf.pos + 2) rest dollar dollar
        dollarString inp sf (sf.pos + 2) strend 2
      else
        let xlen ← strlenspn inp.s (sf.pos + 1) rest letters
        if xlen = 0 then loneDollar sf else parseTagged inp sf xlen
    else if xlen = 1 ∧ next = typeDot then parseWord inp sf
    else
      let sf' ← sf.assign inp typeNumber sf.pos (1 + xlen)
      return (sf.pos + 1 + xlen, sf')

end Money

section Numbers
variable (inp : Input)

def radixDigits (ch : UInt8) : Option Bytes :=
  if ch = 0x58 ∨ ch = 0x78 then some hexDigits
  else if ch = 0x42 ∨ ch = 0x62 then some binaryDigits
  else none

def radixPrefix (pos : ℕ) : Checked (Option Bytes) := do
  let first ← readAt inp.s pos
  if first = 0x30 ∧ pos + 1 < inp.s.length then
    let second ← readAt inp.s (pos + 1)
    return radixDigits second
  else return none

/-- The position after an exponent, with `have_e` and `have_exp`. -/
def numberExponent (pos : ℕ) : Checked (ℕ × Bool × Bool) := do
  let haveE ← andThen (pos < inp.s.length) (passes inp pos [fun ch => ch == 0x45 || ch == 0x65])
  if haveE then
    let sign ← andThen (pos + 1 < inp.s.length)
      (passes inp (pos + 1) [fun ch => ch == 0x2B || ch == 0x2D])
    let pos := if sign then pos + 2 else pos + 1
    let stop := skipDigits inp pos
    return (stop, true, decide (pos < stop))
  else return (pos, false, false)

def numberSuffix (pos : ℕ) : Checked ℕ := do
  let suffix ← andThen (pos < inp.s.length)
    (passes inp pos [fun ch => ch == 0x64 || ch == 0x44 || ch == 0x66 || ch == 0x46])
  if suffix then
    if pos + 1 = inp.s.length then return pos + 1
    else
      let next ← readAt inp.s (pos + 1)
      if charIsWhite next || next == 0x3B then return pos + 1
      else if next == 0x75 || next == 0x55 then return pos + 1
      else return pos
  else return pos

variable (sf : Scan)

/-- The part of `parse_number` after the check for `0x` and `0b`. -/
def parseDecimal : Checked (ℕ × Scan) := do
  let start := sf.pos
  let pos := skipDigits inp start
  let dotted ← andThen (pos < inp.s.length) (passes inp pos [(· == typeDot)])
  let pos := if dotted then skipDigits inp (pos + 1) else pos
  if dotted ∧ pos - start = 1 then
    let sf' ← sf.assignChar typeDot start typeDot
    return (pos, sf')
  else
    let (pos, haveE, haveExp) ← numberExponent inp pos
    let pos ← numberSuffix inp pos
    let len ← minus pos start
    let sf' ← sf.assign inp (if haveE && !haveExp then typeBareword else typeNumber) start len
    return (pos, sf')

def parseNumber : Checked (ℕ × Scan) := do
  match ← radixPrefix inp sf.pos with
  | some digits =>
    let rest ← minus inp.s.length (sf.pos + 2)
    let xlen ← strlenspn inp.s (sf.pos + 2) rest digits
    let stype := if xlen = 0 then typeBareword else typeNumber
    let sf' ← sf.assign inp stype sf.pos (2 + xlen)
    return (sf.pos + 2 + xlen, sf')
  | none => parseDecimal inp sf

end Numbers

section Tokenizer
variable (inp : Input)

inductive CharParser where
  | white | operator1 | other | char | hash | dash | slash | backslash | operator2 | string
  | word | estring | ustring | qstring | nqstring | bstring | xstring | bword | tick | var
  | money | number
deriving DecidableEq, Repr

def CharParser.run : CharParser → Scan → Checked (ℕ × Scan)
  | .white => parseWhite
  | .operator1 => parseOperator1 inp
  | .other => parseOther inp
  | .char => parseChar inp
  | .hash => parseHash inp
  | .dash => parseDash inp
  | .slash => parseSlash inp
  | .backslash => parseBackslash inp
  | .operator2 => parseOperator2 inp
  | .string => parseString inp
  | .word => parseWord inp
  | .estring => parseEstring inp
  | .ustring => parseUstring inp
  | .qstring => parseQstring inp
  | .nqstring => parseNqstring inp
  | .bstring => parseBstring inp
  | .xstring => parseXstring inp
  | .bword => parseBword inp
  | .tick => parseTick inp
  | .var => parseVar inp
  | .money => parseMoney inp
  | .number => parseNumber inp

/-- The parsers of the characters from 64 to 95, and from 96 to 127. -/
def letterParsers (first bracket slant close caret line : CharParser) : List CharParser :=
  [first, .word, .bstring, .word, .word, .estring, .word, .word, .word, .word, .word, .word, .word,
    .word, .nqstring, .word, .word, .qstring, .word, .word, .word, .ustring, .word, .word, .xstring,
    .word, .word, bracket, slant, close, caret, line]

def charParseMap : List CharParser :=
  List.flatten [
    List.replicate 33 .white,
    [.operator2, .string, .hash, .money, .operator1, .operator2, .string, .char, .char, .operator2,
      .operator1, .char, .dash, .number, .slash],
    List.replicate 10 .number,
    [.operator2, .char, .operator2, .operator2, .operator2, .other],
    letterParsers .var .bword .backslash .other .operator1 .word,
    letterParsers .tick .char .operator2 .char .operator1 .white,
    List.replicate 32 .word,
    [.white],
    List.replicate 95 .word]

/-- One turn of the tokenizer: a parser that leaves no token is followed by the next. -/
def tokenizeTurn (sf : Scan) : Checked (Scan ⊕ (Bool × Scan)) := do
  if sf.pos < inp.s.length then
    let ch ← readAt inp.s sf.pos
    let parser ← readAt charParseMap ch.toNat
    let (pos, sf) ← parser.run inp sf
    let sf := { sf with pos := pos }
    if sf.current.type ≠ charNull then
      return .inr (true, { sf with statsTokens := sf.statsTokens + 1 })
    else return .inl sf
  else return .inr (false, sf)

def libinjectionSqliTokenize (sf : Scan) : Checked (Bool × Scan) := do
  if inp.s.length = 0 then return (false, sf)
  else
    let sf := { sf with current := Token.clear }
    if sf.pos = 0 ∧ inp.has (flagQuoteSingle ||| flagQuoteDouble) then
      let (pos, sf) ← sf.stringCore inp (flag2delim inp) 0
      return (true, { sf with pos := pos, statsTokens := sf.statsTokens + 1 })
    else loop (tokenizeTurn inp) (inp.s.length + 1) sf

end Tokenizer
end WafWasm.LibinjectionParsers
