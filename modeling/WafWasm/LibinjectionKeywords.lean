import WafWasm.Bisection
import WafWasm.LibinjectionTokens

set_option autoImplicit false

/-!
# libinjection: the keyword table

`sql_keywords` is generated data of more than nine thousand rows. It is a parameter here: a
table that ascends, whose words are printable, non-empty and without lower case letters, and
whose types are the ones the data uses.
-/
namespace WafWasm.LibinjectionKeywords
open CheckedMemory Bisection Common LibinjectionTokens

/-- `keyword_t` -/
structure Keyword where
  word : Bytes
  type : UInt8
deriving DecidableEq, Repr

def keywordChar (ch : UInt8) : Bool := 0x20 ≤ ch && ch ≤ 0x7E && upper ch == ch

def keywordTypes : List UInt8 :=
  [typeFingerprint, typeFunction, typeKeyword, typeSqltype, typeOperator, typeBareword, typeTsql,
    typeVariable, typeExpression, typeUnion, typeNumber, typeGroup, typeLogicOperator, typeCollate]

structure KeywordTable where
  entries : List Keyword
  nonempty : 0 < entries.length
  ascending : entries.Pairwise (fun a b => a.word < b.word)
  spelled : ∀ entry ∈ entries, entry.word ≠ [] ∧ ∀ ch ∈ entry.word, keywordChar ch
  typed : ∀ entry ∈ entries, entry.type ∈ keywordTypes

def comesBefore (keywords : List Keyword) (key : Bytes) (len pos : ℕ) : Checked Bool := do
  let keyword ← readAt keywords pos
  let order ← cstrcasecmp keyword.word key len
  return order < 0

/-- The type of the word, or `charNull`; the search ends within one turn for each row. -/
def bsearchKeywordType (keywords : List Keyword) (key : Bytes) (len : ℕ) : Checked UInt8 := do
  let last ← minus keywords.length 1
  let (left, right) ← loop (turn (comesBefore keywords key len)) keywords.length (0, last)
  if left = right then
    let keyword ← readAt keywords left
    let order ← cstrcasecmp keyword.word key len
    if order = 0 then return keyword.type else return charNull
  else return charNull

/-- `is_keyword`, and `libinjection_sqli_lookup_word` on words and operators. -/
def isKeyword (table : KeywordTable) (key : Bytes) (len : ℕ) : Checked UInt8 :=
  bsearchKeywordType table.entries key len

def sampleRows : List Keyword := [
  ⟨bytes "01C", typeFingerprint⟩, ⟨bytes "01UEN", typeFingerprint⟩,
  ⟨bytes "0NC", typeFingerprint⟩, ⟨bytes "0S&S", typeFingerprint⟩,
  ⟨bytes "0S&SOS", typeFingerprint⟩, ⟨bytes "0SC", typeFingerprint⟩,
  ⟨bytes "0SOS", typeFingerprint⟩, ⟨bytes "0X", typeFingerprint⟩,
  ⟨bytes "AND", typeLogicOperator⟩, ⟨bytes "FROM", typeKeyword⟩, ⟨bytes "IN", typeKeyword⟩,
  ⟨bytes "LIKE", typeOperator⟩, ⟨bytes "OR", typeLogicOperator⟩,
  ⟨bytes "SELECT", typeExpression⟩, ⟨bytes "UNION", typeUnion⟩, ⟨bytes "UNION ALL", typeUnion⟩]

def sampleTable : KeywordTable where
  entries := sampleRows
  nonempty := by decide
  ascending := by decide
  spelled := by decide +kernel
  typed := by decide

end WafWasm.LibinjectionKeywords
