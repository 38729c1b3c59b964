import WafWasm.EscapedText
import WafWasm.TokenSpans

set_option autoImplicit false

namespace WafWasm.StringLiterals
open CheckedMemory EscapedText Common LibinjectionTokens LibinjectionKeywords
open LibinjectionParsers InputSearches TokenSpans

variable {inp : Input} {start : ℕ} {delim : UInt8}

section Candidates

def closingFrom (inp : Input) (delim : UInt8) (i : ℕ) : Option ℕ :=
  (closing typeBackslash delim (inp.s.drop i)).map (i + ·)

def firstFrom (inp : Input) (delim : UInt8) (i : ℕ) : Option ℕ :=
  ((inp.s.drop i).findIdx? (· == delim)).map (i + ·)

theorem memchr_eq {i : ℕ} (h : i ≤ inp.s.length) :
    memchr inp.s i (inp.s.length - i) delim = .ok (firstFrom inp delim i) := by
  rw [memchr, slice_ok (by omega), bind_ok,
    List.take_of_length_le (by rw [List.length_drop])]
  rfl

/-- The search goes on from `i`, which is the start or behind a delimiter. -/
structure Searched (inp : Input) (start : ℕ) (delim : UInt8) (i : ℕ) : Prop where
  after : start ≤ i
  within : i ≤ inp.s.length
  behind : i = start ∨ start < i ∧ inp.s[i - 1]? = some delim
  same : closingFrom inp delim start = closingFrom inp delim i

/-- The candidate is the first delimiter from such a position. -/
def AtCandidate (inp : Input) (start : ℕ) (delim : UInt8) (r : Option ℕ) : Prop :=
  ∃ i, Searched inp start delim i ∧ r = firstFrom inp delim i

theorem first_absent {i : ℕ} (h : firstFrom inp delim i = none) :
    closingFrom inp delim i = none := by
  rw [firstFrom, Option.map_eq_none_iff, List.findIdx?_eq_none_iff] at h
  rw [closingFrom, closing_absent, Option.map_none]
  intro hmem
  exact absurd (beq_self_eq_true delim) (Bool.eq_false_iff.mp (h delim hmem))

structure Split (inp : Input) (delim : UInt8) (i q : ℕ) (front rest : Bytes) : Prop where
  text : inp.s.drop i = front ++ delim :: rest
  plain : delim ∉ front
  length : q = i + front.length
  behind : rest = inp.s.drop (q + 1)

theorem first_split {i q : ℕ} (h : firstFrom inp delim i = some q) :
    ∃ front rest, Split inp delim i q front rest := by
  obtain ⟨k, hk, rfl⟩ := Option.map_eq_some_iff.mp h
  obtain ⟨hlt, hget, hbefore⟩ := List.findIdx?_eq_some_iff_getElem.mp hk
  have hdelim : (inp.s.drop i)[k] = delim := beq_iff_eq.mp hget
  refine ⟨(inp.s.drop i).take k, (inp.s.drop i).drop (k + 1), ?_, ?_, ?_, ?_⟩
  · rw [← hdelim, ← List.drop_eq_getElem_cons hlt, List.take_append_drop]
  · intro hmem
    obtain ⟨j, hj, hjget⟩ := List.mem_iff_getElem.mp hmem
    rw [List.length_take] at hj
    rw [List.getElem_take] at hjget
    exact hbefore j (by omega) (by rw [hjget]; exact beq_self_eq_true delim)
  · rw [List.length_take]
    omega
  · rw [List.drop_drop]
    rfl

theorem Split.bound {i q : ℕ} {front rest : Bytes} (h : Split inp delim i q front rest) :
    q < inp.s.length ∧ inp.s[q]? = some delim := by
  have hlength := congrArg List.length h.text
  have hq := h.length
  rw [List.length_drop, List.length_append, List.length_cons] at hlength
  refine ⟨by omega, ?_⟩
  rw [hq, ← List.getElem?_drop, h.text, List.getElem?_append_right (Nat.le_refl _), Nat.sub_self]
  rfl

theorem isBackslashEscaped_eq {i q : ℕ} {front rest : Bytes} (hne : delim ≠ typeBackslash)
    (hi : Searched inp start delim i) (h : Split inp delim i q front rest) :
    isBackslashEscaped inp start q = .ok (trailing typeBackslash front % 2 == 1) := by
  have hafter := hi.after
  have hq := h.length
  have hbound := h.bound.1
  rw [isBackslashEscaped, minus_ok (by omega), bind_ok, slice_ok (by omega), bind_ok]
  have hfront : (inp.s.drop i).take (q - i) = front := by
    rw [h.text, hq, Nat.add_sub_cancel_left, List.take_left]
  have hsplit : (inp.s.drop start).take (q - start) =
      (inp.s.drop start).take (i - start) ++ front := by
    rw [show q - start = (i - start) + (q - i) by omega, List.take_add, List.drop_drop,
      show start + (i - start) = i by omega, hfront]
  have htrailing : trailing typeBackslash ((inp.s.drop start).take (q - start)) =
      trailing typeBackslash front := by
    rw [hsplit]
    rcases hi.behind with rfl | ⟨hlt, hget⟩
    · rw [Nat.sub_self, List.take_zero, List.nil_append]
    · have hlast : (inp.s.drop start)[i - start - 1]? = some delim := by
        rw [List.getElem?_drop, ← hget]
        congr 1
        omega
      rw [show i - start = i - start - 1 + 1 by omega, List.take_add_one, hlast, List.append_assoc]
      exact trailing_append hne _ _
  rw [← htrailing]
  rfl

theorem isDoubleDelimEscaped_eq {i q : ℕ} {front rest : Bytes}
    (h : Split inp delim i q front rest) :
    isDoubleDelimEscaped inp delim q = .ok (decide (rest.head? = some delim)) := by
  rw [isDoubleDelimEscaped, andThen, h.behind, List.head?_drop]
  split_ifs with hc
  · rw [passes, readAt_ok hc, bind_ok, List.getElem?_eq_getElem hc]
    by_cases hch : inp.s[q + 1] = delim
    · rw [hch, if_pos (beq_self_eq_true delim), decide_eq_true rfl]
      rfl
    · rw [if_neg (fun h => hch (beq_iff_eq.mp h)),
        decide_eq_false (fun h => hch (Option.some.inj h))]
      rfl
  · rw [List.getElem?_eq_none (by omega)]
    rfl

end Candidates

section Search

theorem Searched.next {i q n : ℕ} {front rest : Bytes} (hi : Searched inp start delim i)
    (h : Split inp delim i q front rest) (hin : q + n + 1 ≤ inp.s.length)
    (hget : inp.s[q + n]? = some delim)
    (hclosing : closingFrom inp delim i = closingFrom inp delim (q + n + 1)) :
    Searched inp start delim (q + n + 1) := by
  have hafter := hi.after
  have hq := h.length
  exact ⟨by omega, hin, .inr ⟨by omega, hget⟩, hi.same.trans hclosing⟩

theorem stringTurn_closing (hne : delim ≠ typeBackslash) (r : Option ℕ)
    (hr : AtCandidate inp start delim r) :
    Holds (stringTurn inp start delim r) (Continues (AtCandidate inp start delim)
      (candidateMeasure inp) (fun result => result = closingFrom inp delim start) r) := by
  obtain ⟨i, hi, rfl⟩ := hr
  cases hfirst : firstFrom inp delim i with
  | none =>
    refine holds_pure ?_
    change none = closingFrom inp delim start
    rw [hi.same, first_absent hfirst]
  | some q =>
    obtain ⟨front, rest, hsplit⟩ := first_split hfirst
    have hbound := hsplit.bound
    have hq := hsplit.length
    have hclosing : closingFrom inp delim i = (closing typeBackslash delim
        (front ++ delim :: rest)).map (i + ·) := by
      rw [closingFrom, hsplit.text]
    rw [closing_candidate hne hsplit.plain] at hclosing
    rw [stringTurn, isBackslashEscaped_eq hne hi hsplit, bind_ok]
    have hsmaller : ∀ n, q + n + 1 ≤ inp.s.length →
        candidateMeasure inp (firstFrom inp delim (q + n + 1)) < candidateMeasure inp (some q) := by
      intro n hn
      change _ < inp.s.length - q
      cases hnext : firstFrom inp delim (q + n + 1) with
      | none =>
        change 0 < _
        omega
      | some p =>
        obtain ⟨front', rest', hsplit'⟩ := first_split hnext
        have hp := hsplit'.length
        change inp.s.length - p < _
        omega
    by_cases hodd : trailing typeBackslash front % 2 = 1
    · rw [if_pos hodd] at hclosing
      rw [if_pos (beq_iff_eq.mpr hodd), minus_ok (by omega), bind_ok, memchr_eq (by omega), bind_ok]
      refine holds_pure ⟨⟨q + 0 + 1, hi.next hsplit (by omega) hbound.2 ?_, rfl⟩,
        hsmaller 0 (by omega)⟩
      rw [hclosing, closingFrom, hsplit.behind, Option.map_map]
      congr 1
      funext k
      change i + (k + (front.length + 1)) = q + 0 + 1 + k
      omega
    · rw [if_neg hodd] at hclosing
      rw [if_neg (fun h => hodd (beq_iff_eq.mp h)), isDoubleDelimEscaped_eq hsplit, bind_ok]
      by_cases hdoubled : rest.head? = some delim
      · rw [if_pos hdoubled] at hclosing
        have hget : inp.s[q + 1]? = some delim := by
          rw [← List.head?_drop, ← hsplit.behind]
          exact hdoubled
        have hin := (List.getElem?_eq_some_iff.mp hget).1
        rw [if_pos (decide_eq_true hdoubled), minus_ok (by omega), bind_ok, memchr_eq (by omega),
          bind_ok]
        refine holds_pure ⟨⟨q + 1 + 1, hi.next hsplit (by omega) hget ?_, rfl⟩,
          hsmaller 1 (by omega)⟩
        rw [hclosing, closingFrom, hsplit.behind, List.tail_drop, Option.map_map]
        congr 1
        funext k
        change i + (k + (front.length + 2)) = q + 1 + 1 + k
        omega
      · rw [if_neg hdoubled] at hclosing
        rw [if_neg (by simpa using hdoubled)]
        refine holds_pure ?_
        change some q = closingFrom inp delim start
        rw [hi.same, hclosing, Option.map_some, hq]

/-- The literal is the one that the scan from left to right finds. -/
theorem stringLoop_eq (hne : delim ≠ typeBackslash) (hstart : start ≤ inp.s.length) :
    loop (stringTurn inp start delim) (inp.s.length + 2) (firstFrom inp delim start) =
      .ok (closingFrom inp delim start) := by
  have hfuel : candidateMeasure inp (firstFrom inp delim start) < inp.s.length + 2 := by
    unfold candidateMeasure
    split
    · exact Nat.succ_pos _
    · omega
  obtain ⟨r, hr, rfl⟩ := holds_loop (stringTurn_closing hne)
    ⟨start, ⟨Nat.le_refl _, hstart, .inl rfl, rfl⟩, rfl⟩ hfuel
  exact hr

end Search

section Literals

def literal (inp : Input) (st : Token) (delim : UInt8) (start len : ℕ) (offset : ℕ)
    (close : UInt8) : Token :=
  { st with type := typeString, pos := start, len := stored len,
            val := padded ((inp.s.drop start).take (stored len)),
            strOpen := if 0 < offset then delim else charNull, strClose := close }

theorem parseStringCore_eq {pos offset : ℕ} {st : Token} (hne : delim ≠ typeBackslash)
    (hpos : pos + offset ≤ inp.s.length) (hval : st.val = padded []) :
    parseStringCore inp pos st delim offset = .ok (match closing typeBackslash delim
        (inp.s.drop (pos + offset)) with
      | some len => (pos + offset + len + 1, literal inp st delim (pos + offset) len offset delim)
      | none => (inp.s.length, literal inp st delim (pos + offset)
          (inp.s.length - (pos + offset)) offset charNull)) := by
  have hopened : ({ st with strOpen := if 0 < offset then delim else charNull } : Token).val =
      padded [] := hval
  have hloop := @stringLoop_eq inp (pos + offset) delim hne hpos
  rw [parseStringCore, minus_ok hpos, bind_ok, memchr_eq hpos, bind_ok]
  change (loop _ _ _ >>= _) = _
  rw [hloop, bind_ok]
  cases hclosing : closing typeBackslash delim (inp.s.drop (pos + offset)) with
  | none =>
    have hbounds := stored_bounds (inp.s.length - (pos + offset))
    rw [closingFrom, hclosing]
    change (stAssign _ typeString _ _ _ _ >>= _) = _
    rw [stAssign_eq hopened (Nat.zero_le _) (by omega)]
    rfl
  | some len =>
    have hbounds := stored_bounds len
    obtain ⟨body, rest, htext, hlength, -, -⟩ := body_of_closing hclosing
    have htotal := congrArg List.length htext
    rw [List.length_drop, List.length_append, List.length_cons] at htotal
    rw [closingFrom, hclosing]
    change (minus (pos + offset + len) (pos + offset) >>= _) = _
    rw [minus_ok (Nat.le_add_right _ _), bind_ok, Nat.add_sub_cancel_left,
      stAssign_eq hopened (Nat.zero_le _) (by omega)]
    rfl

/-- A literal with a closing delimiter is the text up to it, and is left behind as a whole; the
others reach to the end of the input. -/
theorem parseStringCore_literal {pos offset : ℕ} {st : Token} (hne : delim ≠ typeBackslash)
    (hpos : pos + offset ≤ inp.s.length) (hval : st.val = padded []) :
    (∀ body rest, inp.s.drop (pos + offset) = body ++ delim :: rest →
      Body typeBackslash delim body → rest.head? ≠ some delim →
        parseStringCore inp pos st delim offset = .ok (pos + offset + body.length + 1,
          literal inp st delim (pos + offset) body.length offset delim)) ∧
    ((¬∃ body rest, inp.s.drop (pos + offset) = body ++ delim :: rest ∧
      Body typeBackslash delim body ∧ rest.head? ≠ some delim) →
        parseStringCore inp pos st delim offset = .ok (inp.s.length,
          literal inp st delim (pos + offset) (inp.s.length - (pos + offset)) offset
            charNull)) := by
  constructor
  · intro body rest htext hbody hrest
    rw [parseStringCore_eq hne hpos hval, htext, closing_body hne hbody hrest]
  · intro hnone
    rw [parseStringCore_eq hne hpos hval]
    cases hclosing : closing typeBackslash delim (inp.s.drop (pos + offset)) with
    | none => rfl
    | some len =>
      obtain ⟨body, rest, htext, -, hbody, hrest⟩ := body_of_closing hclosing
      exact absurd ⟨body, rest, htext, hbody, hrest⟩ hnone

theorem parseStringCore_literal_quotes :
    parseStringCore ⟨bytes "'a''b\\'c' or", 9, sampleTable⟩ 0 Token.clear charSingle 1 =
      .ok (9, literal ⟨bytes "'a''b\\'c' or", 9, sampleTable⟩ Token.clear charSingle 1 7 1
        charSingle) :=
  (@parseStringCore_literal ⟨bytes "'a''b\\'c' or", 9, sampleTable⟩ charSingle 0 1
    Token.clear (by decide) (by decide) rfl).1 (bytes "a''b\\'c") (bytes " or") (by decide)
    (.plain _ _ (by decide) (by decide) (.doubled _ (.plain _ _ (by decide) (by decide)
      (.escaped _ _ (.plain _ _ (by decide) (by decide) .nil))))) (by decide)

end Literals
end WafWasm.StringLiterals
