import Mathlib.Data.List.TakeWhile
import WafWasm.QuoteContexts

set_option autoImplicit false

namespace WafWasm.PlainWords
open CheckedMemory Common LibinjectionTokens LibinjectionKeywords LibinjectionParsers
open LibinjectionFold LibinjectionVerdict KeywordLookup InputSearches TokenSpans TokenRuns
open FoldRuns FoldShapes Fingerprints Verdicts MysqlReparse QuoteContexts

section Words

/-- A character that neither ends a word nor splits it. -/
def isPlain (ch : UInt8) : Bool := !strchr wordDelimiters ch && ch != typeDot && ch != charTick

def wordParsers : List CharParser :=
  [.word, .estring, .ustring, .qstring, .nqstring, .bstring, .xstring]

def startsWord (ch : UInt8) : Bool :=
  match charParseMap[ch.toNat]? with
  | some parser => wordParsers.contains parser
  | none => false

structure PlainWord (s : Bytes) : Prop where
  starts : ∃ ch, s[0]? = some ch ∧ startsWord ch = true
  plain : ∀ ch ∈ s, isPlain ch = true

/-- A plain word at a position of the input, and what comes behind it. -/
structure WordAt (inp : Input) (pos : ℕ) (word rest : Bytes) : Prop where
  text : inp.s.drop pos = word ++ rest
  word : PlainWord word
  stop : ∀ ch, rest[0]? = some ch → charIsWhite ch = true

/-- The types that a word may have. -/
def WordType (stype : UInt8) : Prop := stype ∈ typeBareword :: keywordTypes

def wordType (table : KeywordTable) (word : Bytes) : UInt8 :=
  if word.length < tokenSize then
    if typeOf table (word.map upper) = charNull then typeBareword
    else typeOf table (word.map upper)
  else typeBareword

theorem wordType_typed (table : KeywordTable) (word : Bytes) : WordType (wordType table word) := by
  unfold wordType
  split_ifs with hshort hnull
  · exact .head _
  · exact .tail _ ((typeOf_cases table _).resolve_left hnull)
  · exact .head _

variable {inp : Input} {sf : Scan} {word rest : Bytes}

theorem plain_ne {ch c : UInt8} (h : isPlain ch = true) (hc : isPlain c = false) : ch ≠ c := by
  rintro rfl
  rw [h] at hc
  cases hc

theorem white_all : (List.range 256).all (fun n => !charIsWhite (UInt8.ofNat n) ||
    strchr wordDelimiters (UInt8.ofNat n) &&
      charParseMap[n]? == some .white) = true := by
  decide +kernel

theorem white_stops {ch : UInt8} (h : charIsWhite ch = true) :
    strchr wordDelimiters ch = true ∧ charParseMap[ch.toNat]? = some .white := by
  have hall := List.all_eq_true.mp white_all ch.toNat (List.mem_range.mpr ch.toNat_lt)
  rw [UInt8.ofNat_toNat, h, Bool.not_true, Bool.false_or, Bool.and_eq_true, beq_iff_eq] at hall
  exact hall

theorem WordAt.nonempty (h : WordAt inp sf.pos word rest) : 0 < word.length := by
  obtain ⟨ch, hch, -⟩ := h.word.starts
  exact (List.getElem?_eq_some_iff.mp hch).1

theorem WordAt.length (h : WordAt inp sf.pos word rest) :
    sf.pos + word.length + rest.length = inp.s.length := by
  have hlength := congrArg List.length h.text
  have hnonempty := h.nonempty
  rw [List.length_drop, List.length_append] at hlength
  omega

theorem WordAt.getElem (h : WordAt inp sf.pos word rest) (i : ℕ) :
    inp.s[sf.pos + i]? = (word ++ rest)[i]? := by
  rw [← List.getElem?_drop, h.text]

theorem lookahead_absent (h : WordAt inp sf.pos word rest) {c : Prop} [Decidable c] {i : ℕ}
    (hi : i ≤ word.length) {delim : UInt8} (hdelim : isPlain delim = false)
    (hblack : charIsWhite delim = false) {tests : List (UInt8 → Bool)}
    (hroom : c → sf.pos + i < inp.s.length) :
    andThen c (passes inp (sf.pos + i) ((· == delim) :: tests)) = .ok false := by
  rw [andThen]
  split_ifs with hc
  · have hlt := hroom hc
    have hget := h.getElem i
    rw [List.getElem?_eq_getElem hlt] at hget
    have hne : inp.s[sf.pos + i] ≠ delim := by
      rcases Nat.lt_or_eq_of_le hi with hinside | rfl
      · rw [List.getElem?_append_left hinside] at hget
        exact plain_ne (h.word.plain _ (List.mem_of_getElem? hget.symm)) hdelim
      · rw [List.getElem?_append_right (Nat.le_refl _), Nat.sub_self] at hget
        rintro heq
        rw [← heq, h.stop _ hget.symm] at hblack
        cases hblack
    rw [passes, readAt_ok hlt, bind_ok]
    exact if_neg fun heq => hne (beq_iff_eq.mp heq)
  · rfl

theorem strlencspn_word (h : WordAt inp sf.pos word rest) :
    strlencspn inp.s sf.pos (inp.s.length - sf.pos) wordDelimiters = .ok word.length := by
  have hlength := h.length
  have hinside : ∀ ch ∈ word, (!strchr wordDelimiters ch) = true := by
    intro ch hch
    exact (Bool.and_eq_true_iff.mp (Bool.and_eq_true_iff.mp (h.word.plain ch hch)).1).1
  have houtside : rest.takeWhile (fun ch => !strchr wordDelimiters ch) = [] := by
    cases rest with
    | nil => rfl
    | cons ch rest =>
      refine List.takeWhile_cons_of_neg ?_
      rw [(white_stops (h.stop ch rfl)).1]
      exact Bool.false_ne_true
  rw [strlencspn, slice_ok (by omega), bind_ok, List.take_of_length_le (by rw [List.length_drop]),
    h.text, List.takeWhile_append_of_pos hinside, houtside, List.append_nil]
  rfl

theorem splitLoop_plain {current : Token} (hlen : current.len < current.val.length)
    (hplain : ∀ i ch, i < current.len → current.val[i]? = some ch → isPlain ch = true)
    (hsize : current.len < tokenSize + 1) :
    loop (splitTurn inp current) (tokenSize + 1) 0 = .ok none := by
  have hturn : ∀ i, True → Holds (splitTurn inp current i)
      (Continues (fun _ => True) (fun i => current.len - i) (fun r => r = none) i) := by
    intro i _
    rw [splitTurn]
    refine holds_ite (fun hi => ?_) fun _ => holds_pure rfl
    refine (holds_readAt (by omega)).bind fun delim hdelim => ?_
    have hword := hplain i delim hi hdelim
    refine holds_ite (fun hsplit => ?_) fun _ => ?_
    · rcases hsplit with hdot | htick
      · exact absurd hdot (plain_ne hword (by decide))
      · exact absurd htick (plain_ne hword (by decide))
    · exact holds_pure ⟨trivial, by change current.len - (i + 1) < current.len - i; omega⟩
  obtain ⟨r, hr, rfl⟩ := holds_loop hturn trivial
    (show current.len - 0 < tokenSize + 1 by omega)
  exact hr

def wordToken (table : KeywordTable) (word : Bytes) (pos : ℕ) : Token :=
  { Token.clear with
    type := wordType table word, pos := pos, len := stored word.length,
    val := padded (word.take (stored word.length)) }

theorem parseWord_word (h : WordAt inp sf.pos word rest) (hclear : sf.current = Token.clear) :
    Holds (parseWord inp sf) (fun r => r.1 = sf.pos + word.length ∧
      r.2.current = wordToken inp.keywords word sf.pos) := by
  have hbounds := stored_bounds word.length
  have hlength := h.length
  have htext : (inp.s.drop sf.pos).take (stored word.length) = word.take (stored word.length) := by
    rw [h.text, List.take_append_of_le_length hbounds.1]
  rw [parseWord, minus_ok (by omega), bind_ok, strlencspn_word h, bind_ok]
  have hassign : sf.assign inp typeBareword sf.pos word.length =
      .ok { sf with current := { Token.clear with
        type := typeBareword, pos := sf.pos, len := stored word.length,
        val := padded (word.take (stored word.length)) } } := by
    rw [Scan.assign, hclear, @stAssign_eq Token.clear [] inp.s word.length sf.pos rfl
      (Nat.zero_le _) (by omega), htext]
    rfl
  have hlong : stored word.length < (padded (word.take (stored word.length))).length := by
    rw [padded_length (by rw [List.length_take]; omega)]
    omega
  have hchars : ∀ i ch, i < stored word.length →
      (padded (word.take (stored word.length)))[i]? = some ch → isPlain ch = true := by
    intro i ch hi hch
    rw [padded, List.getElem?_append_left (by rw [List.length_take]; omega),
      List.getElem?_take_of_lt hi] at hch
    exact h.word.plain ch (List.mem_of_getElem? hch)
  rw [hassign, bind_ok]
  change Holds (loop (splitTurn inp _) (tokenSize + 1) 0 >>= _) _
  rw [splitLoop_plain hlong hchars (by change stored word.length < tokenSize + 1; omega), bind_ok]
  refine holds_ite (fun hshort => ?_) fun hcut => ?_
  · have hstored := stored_eq hshort
    rw [hstored, List.take_length] at hlong
    change Holds (isKeyword inp.keywords (padded (word.take (stored word.length)))
      word.length >>= _) _
    rw [hstored, List.take_length, isKeyword_eq _ (Nat.le_of_lt hlong), bind_ok, padded_take]
    refine holds_pure ⟨rfl, ?_⟩
    rw [wordToken, wordType, if_pos hshort, hstored, List.take_length]
  · refine holds_pure ⟨rfl, ?_⟩
    rw [wordToken, wordType, if_neg hcut]

theorem lookahead_next (h : WordAt inp sf.pos word rest) {delim : UInt8}
    (hdelim : isPlain delim = false) (hblack : charIsWhite delim = false)
    {tests : List (UInt8 → Bool)} :
    andThen (sf.pos + 2 < inp.s.length) (passes inp (sf.pos + 1) ((· == delim) :: tests)) =
      .ok false :=
  lookahead_absent h h.nonempty hdelim hblack fun hroom => by omega

theorem wordParser_eq (h : WordAt inp sf.pos word rest) {parser : CharParser}
    (hparser : parser ∈ wordParsers) : parser.run inp sf = parseWord inp sf := by
  have hquote := @lookahead_next inp sf word rest h charSingle (by decide) (by decide) []
  have hqstring : ∀ offset, offset ≤ 1 → parseQstringCore inp sf offset = parseWord inp sf := by
    intro offset hoffset
    have hnonempty := h.nonempty
    obtain ⟨named, hnamed, hletter⟩ := @lookahead_holds inp (sf.pos + offset < inp.s.length) _
      (sf.pos + offset) (fun ch => ch == 0x71 || ch == 0x51) [] (fun hroom => hroom)
    have hopen : andThen (named = true ∧ sf.pos + offset + 2 < inp.s.length)
        (passes inp (sf.pos + offset + 1) [(· == charSingle)]) = .ok false := by
      cases named with
      | false => rfl
      | true =>
        obtain ⟨-, ch, hch, hq⟩ := hletter rfl
        have hinside : offset < word.length := by
          rw [h.getElem offset] at hch
          by_contra hbehind
          have hend : offset = word.length := by omega
          rw [hend, List.getElem?_append_right (Nat.le_refl _), Nat.sub_self] at hch
          have hwhite := h.stop ch hch
          rcases Bool.or_eq_true_iff.mp hq with hlower | hupper
          · rw [beq_iff_eq.mp hlower] at hwhite
            exact absurd hwhite (by decide)
          · rw [beq_iff_eq.mp hupper] at hwhite
            exact absurd hwhite (by decide)
        exact lookahead_absent h hinside (by decide) (by decide) fun hroom => by omega
    rw [parseQstringCore, hnamed, bind_ok, hopen, bind_ok]
    rfl
  have hdigits : ∀ digits, parseDigitString inp sf digits = parseWord inp sf := by
    intro digits
    rw [parseDigitString, hquote, bind_ok]
    rfl
  have hestring : parseEstring inp sf = parseWord inp sf := by
    rw [parseEstring, hquote, bind_ok]
    rfl
  simp only [wordParsers, List.mem_cons, List.not_mem_nil, or_false] at hparser
  rcases hparser with rfl | rfl | rfl | rfl | rfl | rfl | rfl
  · rfl
  · exact hestring
  · change parseUstring inp sf = _
    rw [parseUstring, lookahead_next h (by decide) (by decide), bind_ok]
    rfl
  · exact hqstring 0 (Nat.zero_le _)
  · change parseNqstring inp sf = _
    rw [parseNqstring, hquote, bind_ok]
    exact hqstring 1 (Nat.le_refl _)
  · exact hdigits binaryDigits
  · exact hdigits hexDigits

theorem wordType_visible {stype : UInt8} (h : WordType stype) :
    stype ≠ charNull ∧ stype ≠ typeEvil ∧ upper stype ≠ typeEvil := by
  unfold WordType at h
  revert stype
  decide +kernel

theorem tokenizeTurn_word (h : WordAt inp sf.pos word rest) (hclear : sf.current = Token.clear) :
    Holds (tokenizeTurn inp sf) (fun r => ∃ sf', r = .inr (true, sf') ∧
      sf'.pos = sf.pos + word.length ∧ sf'.current = wordToken inp.keywords word sf.pos) := by
  obtain ⟨ch, hch, hstarts⟩ := h.word.starts
  have hlength := h.length
  have hnonempty := h.nonempty
  obtain ⟨parser, hparser, hmem⟩ : ∃ parser, charParseMap[ch.toNat]? = some parser ∧
      parser ∈ wordParsers := by
    rw [startsWord] at hstarts
    cases hentry : charParseMap[ch.toNat]? with
    | none =>
      rw [hentry] at hstarts
      cases hstarts
    | some parser =>
      rw [hentry] at hstarts
      exact ⟨parser, rfl, List.contains_iff_mem.mp hstarts⟩
  have hread : readAt inp.s sf.pos = .ok ch := by
    have hget := h.getElem 0
    rw [Nat.add_zero, List.getElem?_append_left hnonempty, hch] at hget
    rw [readAt, hget]
  have hmap : readAt charParseMap ch.toNat = .ok parser := by
    rw [readAt, hparser]
  rw [tokenizeTurn, if_pos (by omega), hread, bind_ok, hmap, bind_ok, wordParser_eq h hmem]
  refine (parseWord_word h hclear).bind fun r hr => ?_
  obtain ⟨pos, sf'⟩ := r
  obtain ⟨hpos, hcurrent⟩ := hr
  change Holds (if sf'.current.type ≠ charNull then _ else _) _
  have htyped : sf'.current.type ≠ charNull := by
    rw [show sf'.current = _ from hcurrent]
    exact (wordType_visible (wordType_typed inp.keywords word)).1
  rw [if_pos htyped]
  exact holds_pure ⟨_, rfl, hpos, hcurrent⟩

end Words

section Verdict
variable {s : Bytes} {table : KeywordTable} {flags : ℕ}

theorem tokenizeAt_word (hword : PlainWord s)
    (hplain : (resetInput s table flags).has (flagQuoteSingle ||| flagQuoteDouble) = false) :
    Holds (tokenizeAt (resetInput s table flags) resetState 0) (fun r =>
      r.1 = true ∧ r.2.scan.pos = s.length ∧ WordType (typeAt r.2.tokenvec 0)) := by
  have hat : @WordAt (resetInput s table flags) 0 s [] :=
    ⟨(List.append_nil s).symm, hword, fun ch hch => nomatch hch⟩
  have hnonempty : 0 < s.length := @WordAt.nonempty _ resetState.scan _ _ hat
  have hcall : Holds (libinjectionSqliTokenize (resetInput s table flags) resetState.scan)
      (fun r => r.1 = true ∧ r.2.pos = s.length ∧
        r.2.current = wordToken table s 0) := by
    have hnone : ¬(resetState.scan.pos = 0 ∧
        (resetInput s table flags).has (flagQuoteSingle ||| flagQuoteDouble) = true) := by
      rw [hplain]
      exact fun h => Bool.false_ne_true h.2
    rw [libinjectionSqliTokenize, if_neg (by change s.length ≠ 0; omega)]
    change Holds (if resetState.scan.pos = 0 ∧
      (resetInput s table flags).has (flagQuoteSingle ||| flagQuoteDouble) = true then _ else _) _
    rw [if_neg hnone, loop]
    refine (@tokenizeTurn_word _ resetState.scan s [] hat rfl).bind fun r hr => ?_
    obtain ⟨sf', rfl, hpos, hcurrent⟩ := hr
    exact holds_pure ⟨rfl, hpos.trans (Nat.zero_add _), hcurrent⟩
  rw [tokenizeAt, readAt_ok reset_slots, bind_ok]
  refine hcall.bind fun r hr => ?_
  obtain ⟨more, scan⟩ := r
  change Holds (writeAt resetState.tokenvec 0 scan.current >>= _) _
  rw [writeAt_ok reset_slots, bind_ok]
  refine holds_pure ⟨hr.1, hr.2.1, ?_⟩
  rw [typeAt_set reset_slots, if_pos rfl, show scan.current = _ from hr.2.2]
  exact wordType_typed table s

/-- The only fingerprint of one character is that of an input that could not be parsed. -/
def LongFingerprints (table : KeywordTable) : Prop :=
  ∀ entry ∈ table.entries, entry.type = typeFingerprint → entry.word.length = 2 →
    entry.word = bytes "0X"

theorem blacklisted_word (hrows : LongFingerprints table) {stype : UInt8} (h : WordType stype) :
    blacklisted table [stype] = false := by
  rw [← Bool.not_eq_true]
  intro hblack
  obtain ⟨entry, hentry, hspelled, htype⟩ := entry_of_blacklisted hblack
  have hrow := hrows entry hentry htype (by rw [hspelled]; rfl)
  rw [hspelled] at hrow
  have hevil : upper stype = typeEvil := (List.cons.inj (List.cons.inj hrow).2).1
  exact (wordType_visible h).2.2 hevil

theorem flaggedIn_word (hrows : LongFingerprints table) (hword : PlainWord s)
    (hplain : (resetInput s table flags).has (flagQuoteSingle ||| flagQuoteDouble) = false) :
    flaggedIn s table flags = false :=
  flaggedIn_oneToken (fun _ h => ⟨(wordType_visible h).2.1, blacklisted_word hrows h⟩)
    (tokenizeAt_word hword hplain)

/-- One word is never an injection, whatever words the table has. -/
theorem isSqli_plainWord (hrows : LongFingerprints table) (hword : PlainWord s) :
    libinjectionIsSqli s table = .ok false := by
  have hnonempty : s ≠ [] := by
    rintro rfl
    obtain ⟨ch, hch, -⟩ := hword.starts
    cases hch
  have habsent : ∀ {ch}, isPlain ch = false → ch ∉ s := fun hch hmem =>
    absurd rfl (plain_ne (hword.plain _ hmem) hch)
  have hansi : flaggedIn s table (flagQuoteNone ||| flagSqlAnsi) = false :=
    flaggedIn_word hrows hword (unquoted_reset (by decide))
  have hmysql : flaggedIn s table (flagQuoteNone ||| flagSqlMysql) = false :=
    flaggedIn_word hrows hword (unquoted_reset (by decide))
  rw [isSqli_unquoted hnonempty (habsent (by decide)) (habsent (by decide)), hansi, hmysql]
  rfl

theorem isSqli_plainWord_select : libinjectionIsSqli (bytes "select") sampleTable = .ok false :=
  isSqli_plainWord (by unfold LongFingerprints; decide)
    ⟨⟨0x73, rfl, by decide⟩, List.all_eq_true.mp (by decide)⟩

end Verdict
end WafWasm.PlainWords
