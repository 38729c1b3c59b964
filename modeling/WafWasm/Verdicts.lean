import WafWasm.Fingerprints

set_option autoImplicit false

namespace WafWasm.Verdicts
open CheckedMemory Common LibinjectionTokens LibinjectionKeywords LibinjectionParsers
open LibinjectionFold LibinjectionVerdict KeywordLookup InputSearches TokenSpans TokenRuns
open FoldSteps FoldCounts Fingerprints

variable {s : Bytes} {table : KeywordTable} {inp : Input} {st : SqliState} {pattern : Bytes}

theorem fingerprinted_length (h : Fingerprinted inp st pattern) : pattern.length ≤ 5 := by
  rcases h.shape with hnormal | rfl
  · exact hnormal.length_le
  · decide

theorem fingerprinted_null (h : Fingerprinted inp st pattern) : charNull ∉ pattern := by
  rcases h.shape with hnormal | rfl
  · exact hnormal.typed
  · decide

theorem fingerprinted_pattern (h : Fingerprinted inp st pattern) :
    cString st.fingerprint = .ok pattern := by
  have hlength := fingerprinted_length h
  rw [h.fingerprint, cString_spelt (by omega) (fingerprinted_null h)]

section Blacklist

theorem upper_upper (ch : UInt8) : upper (upper ch) = upper ch := by
  by_cases h : (0x61 ≤ ch && ch ≤ 0x7A) = true
  · have hupper : upper ch = ch - 0x20 := if_pos h
    rw [hupper]
    refine if_neg fun h' => ?_
    rw [Bool.and_eq_true, decide_eq_true_eq, decide_eq_true_eq, UInt8.le_iff_toNat_le,
      UInt8.le_iff_toNat_le] at h h'
    have hlow : 97 ≤ ch.toNat := h.1
    have hhigh : ch.toNat ≤ 122 := h.2
    have hlow' : 97 ≤ (ch - 0x20).toNat := h'.1
    have hsub : (ch - 0x20).toNat = ch.toNat - 32 :=
      UInt8.toNat_sub_of_le _ _ (UInt8.le_iff_toNat_le.mpr (by change 32 ≤ ch.toNat; omega))
    omega
  · have hupper : upper ch = ch := if_neg h
    rw [hupper, hupper]

/-- The table has a row for the pattern, in upper case and after a zero. -/
def blacklisted (table : KeywordTable) (pattern : Bytes) : Bool :=
  pattern != [] && typeOf table (0x30 :: pattern.map upper) == typeFingerprint

theorem blacklist_eq (h : Fingerprinted inp st pattern) :
    libinjectionSqliBlacklist table st = .ok (blacklisted table pattern) := by
  have hlength := fingerprinted_length h
  rw [libinjectionSqliBlacklist, fingerprinted_pattern h, bind_ok]
  cases hpattern : pattern with
  | nil => rfl
  | cons ch rest =>
    rw [← hpattern, if_neg (by rw [hpattern, List.length_cons]; omega)]
    have hmapped : (pattern.map upper).length = pattern.length := List.length_map _
    have hfirst : writeAt (List.replicate 8 (0 : UInt8)) 0 0x30 =
        .ok (0x30 :: List.replicate 7 0) := rfl
    rw [hfirst, bind_ok,
      copyTo_ok (by rw [hmapped, List.length_cons, List.length_replicate]; omega), bind_ok]
    have htaken : (0x30 :: List.replicate 7 (0 : UInt8)).take 1 ++ pattern.map upper ++
        (0x30 :: List.replicate 7 0).drop (1 + (pattern.map upper).length) =
          0x30 :: pattern.map upper ++ List.replicate (7 - pattern.length) 0 := by
      rw [hmapped, Nat.add_comm, List.drop_succ_cons, List.drop_replicate]
      rfl
    have hend : writeAt (0x30 :: pattern.map upper ++ List.replicate (7 - pattern.length) 0)
        (pattern.length + 1) charNull =
          .ok (0x30 :: pattern.map upper ++ List.replicate (7 - pattern.length) 0) := by
      rw [writeAt_ok (by
        rw [List.length_append, List.length_cons, List.length_replicate, hmapped]
        omega), List.set_append_right _ _ (by rw [List.length_cons, hmapped])]
      change Except.ok (_ ++ (List.replicate _ 0).set _ 0) = _
      rw [List.set_replicate_self]
    rw [htaken, hend, bind_ok, isKeyword_eq _ (by
      rw [List.length_append, List.length_cons, hmapped]
      omega), bind_ok]
    have hkey : (0x30 :: pattern.map upper ++ List.replicate (7 - pattern.length) 0).take
        (pattern.length + 1) = 0x30 :: pattern.map upper :=
      List.take_left' (by rw [List.length_cons, hmapped])
    have hupper : (0x30 :: pattern.map upper).map upper = 0x30 :: pattern.map upper := by
      rw [List.map_cons, List.map_map]
      congr 1
      exact List.map_congr_left fun ch _ => upper_upper ch
    rw [hkey, hupper, blacklisted, hpattern]
    rfl

end Blacklist

section Whitelist

theorem numberComment_holds {number : Token} {ch : UInt8} (hch : s[number.len]? = some ch)
    (hnext : ch = slash ∨ ch = dash → number.len + 1 < s.length) :
    Holds (numberComment s number) (fun _ => True) := by
  obtain ⟨hlt, hget⟩ := List.getElem?_eq_some_iff.mp hch
  rw [numberComment, readAt_ok hlt, hget, bind_ok]
  refine holds_ite (fun _ => holds_pure trivial) fun _ => ?_
  refine holds_ite (fun hslash => ?_) fun _ => ?_
  · exact (holds_readAt (hnext (.inl hslash))).bind fun _ _ => holds_pure trivial
  refine holds_ite (fun hdash => ?_) fun _ => holds_pure trivial
  exact (holds_readAt (hnext (.inr hdash))).bind fun _ _ => holds_pure trivial

theorem opensComment_length {text : Bytes} (h : OpensComment text) :
    ∃ ch, text[0]? = some ch ∧ (ch = slash ∨ ch = dash → 2 ≤ text.length) := by
  rcases h with ⟨rest, rfl⟩ | ⟨rest, rfl⟩ | ⟨rest, rfl⟩
  · exact ⟨hash, rfl, fun hcontra => absurd hcontra (by decide)⟩
  · exact ⟨dash, rfl, fun _ => Nat.le_add_left 2 rest.length⟩
  · exact ⟨slash, rfl, fun _ => Nat.le_add_left 2 rest.length⟩

theorem numberComment_room {t0 t1 : Token} {rest : List Token}
    (h : Trail inp inp.s.length (t0 :: t1 :: rest)) (htype : t1.type = typeComment) :
    ∃ ch, inp.s[t0.len]? = some ch ∧ (ch = slash ∨ ch = dash → t0.len + 1 < inp.s.length) := by
  have hapart : t0.pos + t0.len ≤ t1.pos := (List.pairwise_cons.mp h.apart).1 t1 (.head _)
  have hcomment := (h.each t1 (.tail _ (.head _))).comment htype
  obtain ⟨ch, hch, hnext⟩ := opensComment_length hcomment
  rw [List.getElem?_drop, Nat.add_zero] at hch
  rw [List.length_drop] at hnext
  have hlt := (List.getElem?_eq_some_iff.mp hch).1
  rcases Nat.lt_or_ge t0.len t1.pos with hbefore | hafter
  · exact ⟨inp.s[t0.len], List.getElem?_eq_getElem (by omega), fun _ => by omega⟩
  · have heq : t0.len = t1.pos := by omega
    rw [heq]
    exact ⟨ch, hch, fun hopen => by have := hnext hopen; omega⟩

theorem pairVerdict_holds {flags : ℕ} (h : Fingerprinted (resetInput s table flags) st pattern)
    (hlength : pattern.length = 2) : Holds (pairVerdict s st) (fun _ => True) := by
  obtain ⟨hslots, hheld⟩ := h.slots (by omega)
  have hraw := h.raw hlength
  have hfingerprint : st.fingerprint.length = 8 := by
    rw [h.fingerprint, spelt_length (by omega)]
  rcases htokens : st.sf.tokenvec with _ | ⟨t0, _ | ⟨t1, rest⟩⟩
  · rw [htokens] at hslots
    exact absurd hslots (show ¬0 = 8 by decide)
  · rw [htokens] at hslots
    exact absurd hslots (show ¬1 = 8 by decide)
  rw [htokens] at hraw hheld
  have hopener : 0 < t1.val.length := by
    rw [(hheld t1 (.tail _ (.head _))).val_length]
    decide
  rw [pairVerdict, htokens]
  refine (holds_readAt (show 1 < st.fingerprint.length by omega)).bind fun second _ => ?_
  change Holds (readAt t1.val 0 >>= _) _
  refine (holds_readAt hopener).bind fun opener _ => ?_
  refine holds_ite (fun _ => holds_pure trivial) fun _ => ?_
  refine holds_ite (fun _ => holds_pure trivial) fun _ => ?_
  refine holds_ite (fun _ => holds_pure trivial) fun _ => ?_
  refine holds_ite (fun _ => holds_pure trivial) fun _ => ?_
  refine holds_ite (fun hcomment => ?_) fun _ => ?_
  · refine holds_ite (fun _ => holds_pure trivial) fun hfew => ?_
    obtain ⟨ch, hch, hnext⟩ := numberComment_room (hraw (Nat.le_of_not_lt hfew)) hcomment.2
    exact numberComment_holds hch hnext
  · exact holds_ite (fun _ => holds_pure trivial) fun _ => holds_pure trivial

theorem tripleVerdict_holds (h : Fingerprinted inp st pattern) (hlength : pattern.length = 3) :
    Holds (tripleVerdict st pattern) (fun _ => True) := by
  obtain ⟨hslots, hheld⟩ := h.slots (by omega)
  have hspelled : Spelled (bytes "INTO") := List.all_eq_true.mp (by decide)
  rw [tripleVerdict]
  refine (holds_readAt (by rw [hslots]; decide)).bind fun t0 _ => ?_
  refine (holds_readAt (by rw [hslots]; decide)).bind fun t1 ht1 => ?_
  refine (holds_readAt (by rw [hslots]; decide)).bind fun t2 _ => ?_
  have hval := (hheld t1 (List.mem_of_getElem? ht1)).val_length
  refine holds_ite (fun _ => holds_pure trivial) fun _ => ?_
  refine holds_ite (fun _ => holds_pure trivial) fun _ => ?_
  refine holds_ite (fun _ => ?_) fun _ => holds_pure trivial
  refine holds_ite (fun _ => holds_pure trivial) fun _ => ?_
  refine (cstrcasecmp_holds (bytes "INTO") t1.val 4 hspelled (by rw [hval]; decide)).bind
    fun order _ => ?_
  exact holds_pure trivial

theorem mentionsPassword_holds (s pattern : Bytes) :
    Holds (mentionsPassword s pattern) (fun _ => True) := by
  rw [mentionsPassword]
  refine holds_ite (fun _ => ?_) fun _ => holds_pure trivial
  refine (myMemmem_holds (by omega) (show 1 < (bytes "sp_password").length by decide)).bind
    fun _ _ => ?_
  exact holds_pure trivial

theorem notWhitelist_holds {flags : ℕ} (h : Fingerprinted (resetInput s table flags) st pattern) :
    Holds (libinjectionSqliNotWhitelist s st) (fun _ => True) := by
  rw [libinjectionSqliNotWhitelist, fingerprinted_pattern h, bind_ok]
  refine (mentionsPassword_holds s pattern).bind fun password _ => ?_
  refine holds_ite (fun _ => holds_pure trivial) fun _ => ?_
  refine holds_ite (pairVerdict_holds h) fun _ => ?_
  refine holds_ite (tripleVerdict_holds h) fun _ => holds_pure trivial

end Whitelist

section Contexts
variable (s table)

theorem checkFingerprint_holds {flags : ℕ} {st : SqliState} {pattern : Bytes}
    (h : Fingerprinted (resetInput s table flags) st pattern) :
    Holds (libinjectionSqliCheckFingerprint s table st)
      (fun found => found = true → blacklisted table pattern = true) := by
  rw [libinjectionSqliCheckFingerprint, blacklist_eq h, bind_ok]
  refine holds_ite (fun hrow => ?_) fun _ => holds_pure fun hfalse => absurd hfalse (by decide)
  exact (notWhitelist_holds h).imp fun _ _ _ => hrow

theorem testContext_holds (flags : ℕ) : Holds (testContext s table flags) (fun _ => True) := by
  rw [testContext]
  refine fingerprint_holds.bind fun st hst => ?_
  obtain ⟨pattern, hpattern⟩ := hst
  exact (checkFingerprint_holds s table hpattern).bind fun _ _ => holds_pure trivial

theorem testQuote_holds (quote : ℕ) : Holds (testQuote s table quote) (fun _ => True) := by
  rw [testQuote]
  refine (testContext_holds s table _).bind fun r _ => ?_
  obtain ⟨found, reparse⟩ := r
  refine holds_ite (fun _ => holds_pure trivial) fun _ => ?_
  refine holds_ite (fun _ => ?_) fun _ => holds_pure trivial
  exact (testContext_holds s table _).bind fun _ _ => holds_pure trivial

theorem testSingle_holds : Holds (testSingle s table) (fun _ => True) := by
  rw [testSingle]
  refine (memchr_holds (by omega) charSingle).bind fun quote _ => ?_
  exact holds_ite (fun _ => testQuote_holds s table _) fun _ => holds_pure trivial

theorem testDouble_holds : Holds (testDouble s table) (fun _ => True) := by
  rw [testDouble]
  refine (memchr_holds (by omega) charDouble).bind fun quote _ => ?_
  refine holds_ite (fun _ => ?_) fun _ => holds_pure trivial
  exact (testContext_holds s table _).bind fun _ _ => holds_pure trivial

theorem isSqli_holds : Holds (libinjectionIsSqli s table) (fun _ => True) := by
  rw [libinjectionIsSqli]
  refine holds_ite (fun _ => holds_pure trivial) fun _ => ?_
  refine (testQuote_holds s table flagQuoteNone).bind fun none _ => ?_
  refine holds_ite (fun _ => holds_pure trivial) fun _ => ?_
  refine (testSingle_holds s table).bind fun single _ => ?_
  exact holds_ite (fun _ => holds_pure trivial) fun _ => testDouble_holds s table

/-- On every input and every table the call returns: no access leaves a buffer, no difference of
lengths wraps (`parseSlash` leaves one out), no assertion fails and every loop ends. -/
theorem isSqli_returns : ∃ found, libinjectionIsSqli s table = .ok found := by
  obtain ⟨found, hfound, -⟩ := isSqli_holds s table
  exact ⟨found, hfound⟩

end Contexts
end WafWasm.Verdicts
