import WafWasm.PlainWords
import WafWasm.TokenStreams

set_option autoImplicit false

namespace WafWasm.Sentences
open CheckedMemory Common LibinjectionTokens LibinjectionKeywords LibinjectionParsers RelatedRuns
open LibinjectionFold LibinjectionVerdict InputSearches TokenSpans TokenRuns QuoteContexts
open RespelledTokens LockstepVerdicts TokenStreams PlainWords

section Tokens
variable {inp : Input}

/-- The text has these words, and nothing but white space around them. -/
inductive Sentence : List Bytes → Bytes → Prop
  | blank {white : Bytes} (hwhite : ∀ ch ∈ white, charIsWhite ch = true) : Sentence [] white
  | word {white word rest : Bytes} {words : List Bytes}
      (hwhite : ∀ ch ∈ white, charIsWhite ch = true) (hword : PlainWord word)
      (hrest : Sentence words rest) (hapart : ∀ ch, rest[0]? = some ch → charIsWhite ch = true) :
      Sentence (word :: words) (white ++ (word ++ rest))

theorem passed_of_white {white tail : Bytes} {pos : ℕ} (htext : inp.s.drop pos = white ++ tail)
    (hwhite : ∀ ch ∈ white, charIsWhite ch = true) (i : ℕ) (hi : i < white.length) :
    ∃ ch, inp.s[pos + i]? = some ch ∧ isPassed ch = true := by
  refine ⟨white[i], ?_, ?_⟩
  · rw [← List.getElem?_drop, htext, List.getElem?_append_left hi, List.getElem?_eq_getElem hi]
  · exact beq_iff_eq.mpr (white_stops (hwhite _ (List.getElem_mem hi))).2

theorem tokenStream_sentence (hnonempty : 0 < inp.s.length)
    (hplain : inp.has (flagQuoteSingle ||| flagQuoteDouble) = false) {o : UInt8 → UInt8}
    {words : List Bytes} {text : Bytes} (h : Sentence words text) {sf : Scan} {fuel : ℕ}
    (htext : inp.s.drop sf.pos = text) (hwithin : sf.pos ≤ inp.s.length)
    (hfuel : text.length < fuel) :
    Holds (tokenStream inp fuel sf) (fun tokens =>
      tokens.map (seen o) = words.map fun word => seen o (wordToken inp.keywords word 0)) := by
  induction h generalizing sf fuel with
  | @blank white hwhite =>
    obtain ⟨fuel, rfl⟩ := Nat.exists_eq_succ_of_ne_zero (Nat.ne_of_gt (Nat.zero_lt_of_lt hfuel))
    obtain ⟨r, hcall, -⟩ := @tokenize_holds inp sf hwithin
    obtain ⟨turns, hloop⟩ := call_white hnonempty hplain
      (passed_of_white (htext.trans (List.append_nil white).symm) hwhite) hcall
    have hlength := congrArg List.length htext
    rw [List.length_drop] at hlength
    cases turns with
    | zero => cases hloop
    | succ turns =>
      rw [loop, tokenizeTurn, if_neg (by change ¬sf.pos + white.length < inp.s.length; omega)]
        at hloop
      cases hloop
      rw [tokenStream, hcall]
      exact holds_pure rfl
  | @word white word rest words hwhite hword hrest hapart ih =>
    obtain ⟨fuel, rfl⟩ := Nat.exists_eq_succ_of_ne_zero (Nat.ne_of_gt (Nat.zero_lt_of_lt hfuel))
    obtain ⟨r, hcall, -⟩ := @tokenize_holds inp sf hwithin
    obtain ⟨turns, hloop⟩ := call_white hnonempty hplain (passed_of_white htext hwhite) hcall
    have hat : WordAt inp (sf.pos + white.length) word rest :=
      ⟨by rw [← List.drop_drop, htext, List.drop_left], hword, hapart⟩
    cases turns with
    | zero => cases hloop
    | succ turns =>
      obtain ⟨turn, hturn, sf', rfl, hpos, hcurrent⟩ := @tokenizeTurn_word inp
        { sf with pos := sf.pos + white.length, current := Token.clear } word rest hat rfl
      rw [loop, hturn, bind_ok] at hloop
      obtain rfl : (true, sf') = r := Except.ok.inj hloop
      have hlength := @WordAt.length inp { sf with pos := sf.pos + white.length } word rest hat
      have hnext : inp.s.drop sf'.pos = rest := by
        rw [hpos]
        change inp.s.drop (sf.pos + white.length + word.length) = rest
        rw [← List.drop_drop, hat.text, List.drop_left]
      have hplace : sf'.pos = sf.pos + white.length + word.length := hpos
      change sf.pos + white.length + word.length + rest.length = inp.s.length at hlength
      rw [List.length_append, List.length_append] at hfuel
      have hword := @WordAt.nonempty inp { sf with pos := sf.pos + white.length } word rest hat
      rw [tokenStream, hcall, bind_ok]
      refine (ih hnext (by omega) (by omega)).bind fun tokens htokens => holds_pure ?_
      rw [List.map_cons, List.map_cons, htokens, hcurrent]
      rfl

/-- The tokens of a sentence are its words. -/
theorem tokensOf_sentence {s : Bytes} {table : KeywordTable} {flags : ℕ}
    (hplain : (resetInput s table flags).has (flagQuoteSingle ||| flagQuoteDouble) = false)
    {words : List Bytes} (h : Sentence words s) (hnonempty : s ≠ []) (o : UInt8 → UInt8) :
    (tokensOf (resetInput s table flags)).map (seen o) =
      words.map fun word => seen o (wordToken table word 0) := by
  obtain ⟨tokens, htokens, hsame⟩ := @tokenStream_sentence (resetInput s table flags)
    (List.length_pos_iff.mpr hnonempty) hplain o words s h resetState.scan (s.length + 1) rfl
    (Nat.zero_le _) (Nat.lt_succ_self _)
  rw [tokensOf, show (resetInput s table flags).s = s from rfl, htokens]
  exact hsame

end Tokens

section Spacing
variable {s s' : Bytes} {table : KeywordTable} {words words' : List Bytes}

theorem sentence_chars (h : Sentence words s) :
    ∀ ch ∈ s, isPlain ch = true ∨ charIsWhite ch = true := by
  induction h with
  | blank hwhite => exact fun ch hch => .inr (hwhite ch hch)
  | word hwhite hword hrest hapart ih =>
    intro ch hch
    rcases List.mem_append.mp hch with hmem | hmem
    · exact .inr (hwhite ch hmem)
    · rcases List.mem_append.mp hmem with hmem | hmem
      · exact .inl (hword.plain ch hmem)
      · exact ih ch hmem

theorem sentence_absent (h : Sentence words s) {ch : UInt8} (hplain : isPlain ch = false)
    (hwhite : charIsWhite ch = false) : ch ∉ s := by
  intro hmem
  rcases sentence_chars h ch hmem with htrue | htrue
  · rw [hplain] at htrue
    cases htrue
  · rw [hwhite] at htrue
    cases htrue

theorem sentence_nonempty (h : Sentence words s) (hwords : words ≠ []) : s ≠ [] := by
  cases h with
  | blank hwhite => exact absurd rfl hwords
  | word hwhite hword hrest hapart =>
    obtain ⟨ch, hch, -⟩ := hword.starts
    intro hempty
    have hmem := List.mem_of_getElem? hch
    rw [(List.append_eq_nil_iff.mp (List.append_eq_nil_iff.mp hempty).2).1] at hmem
    cases hmem

theorem recased_nonempty (hwords : words ≠ [])
    (hsame : words.map (List.map upper) = words'.map (List.map upper)) : words' ≠ [] := by
  rintro rfl
  exact hwords (List.map_eq_nil_iff.mp hsame)

theorem sentence_uncommented (h : Sentence words s) : Uncommented s := by
  have hnone : ∀ {ch : UInt8} {rest : Bytes} {i : ℕ}, isPlain ch = false →
      charIsWhite ch = false → ¬ch :: rest <+: s.drop i := by
    intro ch rest i hplain hwhite hopens
    exact sentence_absent h hplain hwhite (List.mem_of_mem_drop (hopens.mem (.head _)))
  rintro i (hhash | hdash | hslash)
  · exact hnone (by decide) (by decide) hhash
  · exact hnone (by decide) (by decide) hdash
  · exact hnone (by decide) (by decide) hslash

theorem seen_wordToken (table : KeywordTable) {word word' : Bytes}
    (h : word.map upper = word'.map upper) :
    seen id (wordToken table word 0) = seen id (wordToken table word' 0) := by
  have hlength : word.length = word'.length := by
    have hmapped := congrArg List.length h
    rwa [List.length_map, List.length_map] at hmapped
  have htype : wordType table word = wordType table word' := by
    rw [wordType, wordType, h, hlength]
  have hval : ∀ text : Bytes, (padded (text.take (stored text.length))).map upper =
      (text.map upper).take (stored text.length) ++
        List.replicate (tokenSize - min (stored text.length) text.length) 0 := by
    intro text
    rw [padded, List.map_append, List.map_replicate, List.map_take, List.length_take]
    rfl
  unfold seen wordToken
  rw [hval, hval, htype, hlength, h]

theorem sentence_tokens (h : Sentence words s) (h' : Sentence words' s') (hwords : words ≠ [])
    (hsame : words.map (List.map upper) = words'.map (List.map upper)) {flags : ℕ}
    (hplain : (resetFlags flags &&& (flagQuoteSingle ||| flagQuoteDouble) != 0) = false) :
    SameTokens id (resetInput s table flags) (resetInput s' table flags) := by
  have hwords' := recased_nonempty hwords hsame
  unfold SameTokens
  rw [tokensOf_sentence (unquoted_reset hplain) h (sentence_nonempty h hwords),
    tokensOf_sentence (unquoted_reset hplain) h' (sentence_nonempty h' hwords')]
  exact Alike.map hsame fun word word' heq => seen_wordToken table heq

/-- White space between words, more or less of it and of any kind, does not change the verdict. -/
theorem isSqli_ignores_spacing (table : KeywordTable) (h : Sentence words s)
    (h' : Sentence words' s') (hwords : words ≠ [])
    (hsame : words.map (List.map upper) = words'.map (List.map upper))
    (hpassword : auditsPassword s' = auditsPassword s) :
    libinjectionIsSqli s' table = libinjectionIsSqli s table := by
  have hwords' := recased_nonempty hwords hsame
  have hflagged : ∀ flags,
      (resetFlags flags &&& (flagQuoteSingle ||| flagQuoteDouble) != 0) = false →
        flaggedIn s' table flags = flaggedIn s table flags := fun flags hplain =>
    flaggedIn_of_tokens (sentence_nonempty h hwords) (sentence_nonempty h' hwords')
      (sentence_uncommented h) hpassword (sentence_tokens h h' hwords hsame hplain)
  have hverdict : ∀ {words s}, Sentence words s → words ≠ [] → libinjectionIsSqli s table =
      .ok (flaggedIn s table (flagQuoteNone ||| flagSqlAnsi) ||
        flaggedIn s table (flagQuoteNone ||| flagSqlMysql)) := fun h hwords =>
    isSqli_unquoted (sentence_nonempty h hwords) (sentence_absent h (by decide) (by decide))
      (sentence_absent h (by decide) (by decide))
  rw [hverdict h hwords, hverdict h' hwords', hflagged _ (by decide), hflagged _ (by decide)]

theorem plainWord_or : PlainWord (bytes "or") :=
  ⟨⟨0x6F, rfl, by decide⟩, List.all_eq_true.mp (by decide)⟩

theorem plainWord_x : PlainWord (bytes "x") :=
  ⟨⟨0x78, rfl, by decide⟩, List.all_eq_true.mp (by decide)⟩

theorem sentence_end : Sentence [bytes "x"] (bytes " x") :=
  @Sentence.word (bytes " ") _ [] [] (List.all_eq_true.mp (by decide)) plainWord_x
    (.blank fun _ hch => nomatch hch) fun _ hch => nomatch hch

theorem isSqli_ignores_spacing_or : libinjectionIsSqli (bytes "\tor  x") sampleTable =
    libinjectionIsSqli (bytes "or x") sampleTable := by
  have hor : Sentence [bytes "or", bytes "x"] (bytes "or x") :=
    @Sentence.word [] _ (bytes " x") _ (fun _ hch => nomatch hch) plainWord_or sentence_end
      fun _ hch => by cases hch; rfl
  have hspaced : Sentence [bytes "or", bytes "x"] (bytes "\tor  x") :=
    @Sentence.word (bytes "\t") _ (bytes "  x") _ (List.all_eq_true.mp (by decide)) plainWord_or
      (@Sentence.word (bytes "  ") _ [] [] (List.all_eq_true.mp (by decide)) plainWord_x
        (.blank fun _ hch => nomatch hch) fun _ hch => nomatch hch)
      fun _ hch => by cases hch; rfl
  exact isSqli_ignores_spacing sampleTable hor hspaced (List.cons_ne_nil _ _) rfl (by decide)

end Spacing
end WafWasm.Sentences
