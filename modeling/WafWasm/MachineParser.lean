import WafWasm.Segments
import WafWasm.TracedRuns

set_option autoImplicit false

/-!
# The parser in machine integers

The parser once more with the 32-bit `size_t` and `int` of the module: sums wrap, `npos` is a
number, `slice` converts its offsets to `int` and back, `substr` may throw, and every slice,
every indexed read and every turn of the loop is recorded. On texts that fit an `int` it
computes what the parser over natural numbers does, and every recorded access is in bounds.
-/
namespace WafWasm.MachineParser
open Common UnorderedContainers HttpParser PercentEncoding Segments TracedRuns

inductive Event where
  | slice (size : ℕ) (start stop : ℤ)
  | read (size index : ℕ)
  | turn (start next : ℕ)

inductive Failure where
  | outOfRange | outOfFuel

abbrev Machine (α : Type) := Run Event Failure α

def Event.Sound : Event → Prop
  | .slice size start stop => 0 ≤ start ∧ start ≤ stop ∧ stop ≤ size
  | .read size index => index < size
  | .turn start next => start < next

section Machine

def wrap (n : ℕ) : ℕ := n % 2 ^ 32

def npos : ℕ := 2 ^ 32 - 1

/-- The conversion from `size_t` to `int`. -/
def toInt (n : ℕ) : ℤ := if n % 2 ^ 32 < 2 ^ 31 then (n % 2 ^ 32 : ℕ) else (n % 2 ^ 32 : ℕ) - 2 ^ 32

/-- The conversion from `int` to `size_t`. -/
def toSize (n : ℤ) : ℕ := (n % 2 ^ 32).toNat

def substr (str : Bytes) (pos count : ℕ) : Machine Bytes :=
  if str.length < pos then fail .outOfRange else return HttpParser.substr str pos count

def slice (str : Bytes) (start stop : ℤ) : Machine Bytes := do
  record (.slice str.length start stop)
  substr str (toSize start) (toSize (stop - start))

def read (str : Bytes) (i : ℕ) : Machine UInt8 := do
  record (.read str.length i)
  return str.getD i 0

def find (data : Bytes) (c : UInt8) (start : ℕ) : ℕ := (HttpParser.find data c start).getD npos

def findFirstNotOf (data : Bytes) (c : UInt8) (start : ℕ) : ℕ :=
  (HttpParser.findFirstNotOf data c start).getD npos

def percentDecodeTurn (encoded : Bytes) (s : Bytes × ℕ) : Machine ((Bytes × ℕ) ⊕ Bytes) := do
  let (decoded, i) := s
  if i < encoded.length then
    let ch ← read encoded i
    let ch := if ch = plus then space else ch
    if ch = percent ∧ wrap (i + 2) < encoded.length then
      let hi ← read encoded (wrap (i + 1))
      let lo ← read encoded (wrap (i + 2))
      return .inl (decoded ++ [escapedChar hi lo], wrap (wrap (i + 2) + 1))
    else return .inl (decoded ++ [ch], wrap (i + 1))
  else return .inr decoded

def percentDecode (encoded : Bytes) : Machine Bytes :=
  loop (percentDecodeTurn encoded) .outOfFuel (encoded.length + 1) ([], 0)

def removeQuotes (cookie : Bool) (val : Bytes) : Machine Bytes := do
  if cookie ∧ 2 ≤ val.length then
    if (← read val (val.length - 1)) = quote then
      if (← read val 0) = quote then
        slice val 1 (toInt (val.length - 1))
      else return val
    else return val
  else return val

def emplaceParameter (data : Bytes) (cookie : Bool) (params : QueryParams) (start stop : ℕ) :
    Machine QueryParams := do
  let param ← slice data (toInt start) (toInt stop)
  let equal := find param equals 0
  if equal ≠ npos then
    let key ← percentDecode (← slice data (toInt start) (toInt (wrap (start + equal))))
    let val ← percentDecode (← slice data (toInt (wrap (start + equal + 1))) (toInt stop))
    let val ← removeQuotes cookie val
    return emplace params key val
  else
    let key ← percentDecode (← slice data (toInt start) (toInt stop))
    return emplace params key []

def parseTurn (data : Bytes) (cookie : Bool) (s : QueryParams × ℕ) :
    Machine ((QueryParams × ℕ) ⊕ QueryParams) := do
  let (params, start) := s
  if start < data.length then
    let found := find data (delim cookie) start
    let stop := if found = npos then data.length else found
    let params ← emplaceParameter data cookie params start stop
    let next := if cookie then findFirstNotOf data space (wrap (stop + 1)) else wrap (stop + 1)
    record (.turn start next)
    return .inl (params, next)
  else return .inr params

def parseParameters (data : Bytes) (start : ℕ) (cookie : Bool) (fuel : ℕ) : Machine QueryParams :=
  loop (parseTurn data cookie) .outOfFuel fuel (∅, start)

end Machine

section Accesses

theorem wrap_eq {n : ℕ} (h : n < 2 ^ 32) : wrap n = n := Nat.mod_eq_of_lt h

theorem toInt_eq {n : ℕ} (h : n < 2 ^ 31) : toInt n = n := by
  unfold toInt
  rw [Nat.mod_eq_of_lt (by omega), if_pos h]

theorem toSize_eq {n : ℕ} (h : n < 2 ^ 32) : toSize n = n := by
  unfold toSize
  omega

theorem slice_returns {str : Bytes} (hlen : str.length < 2 ^ 31) {start stop : ℕ}
    (h : start ≤ stop) (hstop : stop ≤ str.length) :
    Returns Event.Sound (slice str (toInt start) (toInt stop))
      (HttpParser.slice str start stop) := by
  have hcount : (stop : ℤ) - start = ((stop - start : ℕ) : ℤ) := by omega
  have hsound : Event.Sound (.slice str.length start stop) := by
    refine ⟨?_, ?_, ?_⟩ <;> omega
  rw [toInt_eq (by omega), toInt_eq (by omega)]
  refine (returns_record hsound).bind ?_
  rw [hcount, toSize_eq (by omega), toSize_eq (by omega), substr, if_neg (by omega)]
  exact returns_pure _

theorem read_eq {str : Bytes} {i : ℕ} {b : UInt8} (h : str[i]? = some b) :
    read str i = ⟨[.read str.length i], .ok b⟩ := by
  change (⟨[.read str.length i], .ok (str.getD i 0)⟩ : Machine UInt8) = _
  rw [List.getD_eq_getElem?_getD, h, Option.getD_some]

theorem read_returns {str : Bytes} {i : ℕ} {b : UInt8} (h : str[i]? = some b) :
    Returns Event.Sound (read str i) b := by
  have hsound : Event.Sound (.read str.length i) := (List.getElem?_eq_some_iff.mp h).1
  rw [read_eq h]
  refine ⟨rfl, fun event hevent => ?_⟩
  rw [List.mem_singleton.mp hevent]
  exact hsound

end Accesses

section Decoder

theorem percentDecodeTurn_turns {encoded : Bytes} (hlen : encoded.length < 2 ^ 31)
    (s : Bytes × ℕ) :
    Turns Event.Sound (percentDecodeTurn encoded) (fun s => percentDecodeFrom encoded s.1 s.2)
      (fun s => encoded.length - s.2) s := by
  obtain ⟨decoded, i⟩ := s
  by_cases hi : i < encoded.length
  · right
    have hread : encoded[i]? = some encoded[i] := List.getElem?_eq_getElem hi
    generalize hch : (if encoded[i] = plus then space else encoded[i]) = ch
    by_cases hp : ch = percent ∧ i + 2 < encoded.length
    · refine ⟨(decoded ++ [escapedChar encoded[i + 1] encoded[i + 2]], i + 3), ?_, ?_, ?_⟩
      · unfold percentDecodeTurn
        simp only [if_pos hi, wrap_eq (show i + 1 < 2 ^ 32 by omega),
          wrap_eq (show i + 2 < 2 ^ 32 by omega), wrap_eq (show i + 2 + 1 < 2 ^ 32 by omega)]
        refine (read_returns hread).bind ?_
        rw [hch, if_pos hp]
        refine (read_returns (List.getElem?_eq_getElem (by omega))).bind ?_
        refine (read_returns (List.getElem?_eq_getElem hp.2)).bind ?_
        exact returns_pure _
      · change percentDecodeFrom encoded _ (i + 3) = percentDecodeFrom encoded decoded i
        conv_rhs => rw [percentDecodeFrom]
        simp only [dif_pos hi, hch, dif_pos hp]
      · change encoded.length - (i + 3) < encoded.length - i
        omega
    · refine ⟨(decoded ++ [ch], i + 1), ?_, ?_, ?_⟩
      · unfold percentDecodeTurn
        simp only [if_pos hi, wrap_eq (show i + 1 < 2 ^ 32 by omega),
          wrap_eq (show i + 2 < 2 ^ 32 by omega)]
        refine (read_returns hread).bind ?_
        rw [hch, if_neg hp]
        exact returns_pure _
      · change percentDecodeFrom encoded _ (i + 1) = percentDecodeFrom encoded decoded i
        conv_rhs => rw [percentDecodeFrom]
        simp only [dif_pos hi, hch, dif_neg hp]
      · change encoded.length - (i + 1) < encoded.length - i
        omega
  · left
    have hdone : percentDecodeFrom encoded decoded i = decoded := by
      rw [percentDecodeFrom, dif_neg hi]
    unfold percentDecodeTurn
    simp only [if_neg hi, hdone]
    exact returns_pure _

theorem percentDecode_returns {encoded : Bytes} (hlen : encoded.length < 2 ^ 31) :
    Returns Event.Sound (percentDecode encoded) (HttpParser.percentDecode encoded) :=
  loop_returns (percentDecodeTurn_turns hlen) .outOfFuel (Nat.lt_succ_self _)

end Decoder

section Parser

theorem removeQuotes_returns (cookie : Bool) {val : Bytes} (hlen : val.length < 2 ^ 31) :
    Returns Event.Sound (removeQuotes cookie val) (HttpParser.removeQuotes cookie val) := by
  unfold removeQuotes HttpParser.removeQuotes
  by_cases hlong : cookie = true ∧ 2 ≤ val.length
  · rw [if_pos hlong]
    obtain ⟨back, hback⟩ : ∃ back, val[val.length - 1]? = some back :=
      ⟨_, List.getElem?_eq_getElem (by omega)⟩
    obtain ⟨front, hfront⟩ : ∃ front, val[0]? = some front :=
      ⟨_, List.getElem?_eq_getElem (by omega)⟩
    have hlast : val.getLast? = some back := by rw [List.getLast?_eq_getElem?, hback]
    rw [hlast, hfront]
    refine (read_returns hback).bind ?_
    by_cases hb : back = quote
    · rw [if_pos hb]
      refine (read_returns hfront).bind ?_
      by_cases hf : front = quote
      · rw [if_pos hf, if_pos ⟨hlong.1, hlong.2, congrArg some hb, congrArg some hf⟩]
        exact @slice_returns val hlen 1 (val.length - 1) (by omega) (by omega)
      · rw [if_neg hf, if_neg fun h => hf (Option.some.inj h.2.2.2)]
        exact returns_pure _
    · rw [if_neg hb, if_neg fun h => hb (Option.some.inj h.2.2.1)]
      exact returns_pure _
  · rw [if_neg hlong, if_neg fun h => hlong ⟨h.1, h.2.1⟩]
    exact returns_pure _

theorem lt_of_find {p : UInt8 → Bool} {data : Bytes} {start n : ℕ}
    (h : ((data.drop start).findIdx? p).map (start + ·) = some n) : n < data.length := by
  obtain ⟨i, hi, rfl⟩ := Option.map_eq_some_iff.mp h
  obtain ⟨hlt, _⟩ := List.findIdx?_eq_some_iff_findIdx_eq.mp hi
  rw [List.length_drop] at hlt
  omega

theorem find_none {data : Bytes} {c : UInt8} {start : ℕ}
    (h : HttpParser.find data c start = none) : find data c start = npos := by
  rw [find, h, Option.getD_none]

theorem find_some {data : Bytes} (hlen : data.length < 2 ^ 31) {c : UInt8} {start n : ℕ}
    (h : HttpParser.find data c start = some n) : find data c start = n ∧ n ≠ npos := by
  have hn := lt_of_find h
  refine ⟨by rw [find, h, Option.getD_some], ?_⟩
  unfold npos
  omega

theorem decodeSlice_returns {data : Bytes} (hlen : data.length < 2 ^ 31) (start : ℕ) {stop : ℕ}
    (hstop : stop ≤ data.length) :
    Returns Event.Sound (percentDecode (HttpParser.slice data start stop))
      (HttpParser.percentDecode (HttpParser.slice data start stop)) := by
  have hslice := length_slice_le data start stop
  exact percentDecode_returns (by omega)

theorem emplaceParameter_returns {data : Bytes} (hlen : data.length < 2 ^ 31) (cookie : Bool)
    (params : QueryParams) {start stop : ℕ} (h : start ≤ stop) (hstop : stop ≤ data.length) :
    Returns Event.Sound (emplaceParameter data cookie params start stop)
      (HttpParser.emplaceParameter data cookie params start stop) := by
  have hparam := length_slice_le data start stop
  unfold emplaceParameter HttpParser.emplaceParameter
  refine (slice_returns hlen h hstop).bind ?_
  cases hf : HttpParser.find (HttpParser.slice data start stop) equals 0 with
  | none =>
    simp only [hf, find_none hf, ne_eq, not_true_eq_false, if_false]
    refine (slice_returns hlen h hstop).bind ?_
    refine (decodeSlice_returns hlen start hstop).bind ?_
    exact returns_pure _
  | some equal =>
    have hequal := lt_of_find hf
    obtain ⟨hfound, hnpos⟩ := find_some (by omega) hf
    have hval := length_percentDecode_le (HttpParser.slice data (start + equal + 1) stop)
    have hback := length_slice_le data (start + equal + 1) stop
    simp only [hf, hfound, ne_eq, hnpos, not_false_eq_true, if_true,
      wrap_eq (show start + equal < 2 ^ 32 by omega),
      wrap_eq (show start + equal + 1 < 2 ^ 32 by omega)]
    refine (slice_returns hlen (by omega) (by omega)).bind ?_
    refine (decodeSlice_returns hlen start (by omega)).bind ?_
    refine (slice_returns hlen (by omega) hstop).bind ?_
    refine (decodeSlice_returns hlen (start + equal + 1) hstop).bind ?_
    refine (removeQuotes_returns cookie (by omega)).bind ?_
    exact returns_pure _

theorem stopOf_le (data : Bytes) (cookie : Bool) (start : ℕ) :
    stopOf data cookie start ≤ data.length := by
  unfold stopOf
  cases hf : HttpParser.find data (delim cookie) start with
  | none => exact Nat.le_refl _
  | some n => exact (lt_of_find hf).le

theorem stop_eq {data : Bytes} (hlen : data.length < 2 ^ 31) (cookie : Bool) (start : ℕ) :
    (if find data (delim cookie) start = npos then data.length
      else find data (delim cookie) start) = stopOf data cookie start := by
  unfold stopOf
  cases hf : HttpParser.find data (delim cookie) start with
  | none => exact if_pos (find_none hf)
  | some n =>
    obtain ⟨hfound, hnpos⟩ := find_some hlen hf
    rw [hfound, if_neg hnpos]
    rfl

theorem next_eq {data : Bytes} (cookie : Bool) {stop : ℕ} (h : stop < 2 ^ 31) :
    (if cookie then findFirstNotOf data space (wrap (stop + 1)) else wrap (stop + 1)) =
      (nextStart data cookie stop).getD npos := by
  rw [wrap_eq (by omega)]
  cases cookie <;> rfl

theorem lt_next {data : Bytes} (hlen : data.length < 2 ^ 31) (cookie : Bool) {start : ℕ}
    (h : start < data.length) :
    start < (nextStart data cookie (stopOf data cookie start)).getD npos := by
  have hstop := le_stopOf cookie h
  cases hn : nextStart data cookie (stopOf data cookie start) with
  | none =>
    rw [Option.getD_none, npos]
    omega
  | some next =>
    have hnext := lt_nextStart hn
    rw [Option.getD_some]
    omega

/-- Behind the last parameter the loop is left either at once or at `npos`. -/
theorem parseFrom_next {data : Bytes} (hlen : data.length < 2 ^ 31) (cookie : Bool)
    (params : QueryParams) {start : ℕ} (h : start < data.length) :
    parseFrom data cookie
        (HttpParser.emplaceParameter data cookie params start (stopOf data cookie start))
        ((nextStart data cookie (stopOf data cookie start)).getD npos) =
      parseFrom data cookie params start := by
  conv_rhs => rw [parseFrom, dif_pos h]
  dsimp only
  split
  · next hn =>
    rw [hn]
    rfl
  · next hn =>
    have hend : ¬ npos < data.length := by
      unfold npos
      omega
    rw [hn, Option.getD_none, parseFrom, dif_neg hend]

theorem parseTurn_next {data : Bytes} (hlen : data.length < 2 ^ 31) (cookie : Bool)
    (params : QueryParams) {start : ℕ} (hstart : start < data.length) :
    Returns Event.Sound (parseTurn data cookie (params, start))
      (.inl (HttpParser.emplaceParameter data cookie params start (stopOf data cookie start),
        (nextStart data cookie (stopOf data cookie start)).getD npos)) := by
  have hle := stopOf_le data cookie start
  have hsound : Event.Sound
      (.turn start ((nextStart data cookie (stopOf data cookie start)).getD npos)) :=
    lt_next hlen cookie hstart
  unfold parseTurn
  simp only [if_pos hstart, stop_eq hlen,
    next_eq cookie (show stopOf data cookie start < 2 ^ 31 by omega)]
  refine (emplaceParameter_returns hlen cookie params (le_stopOf cookie hstart) hle).bind ?_
  refine (returns_record hsound).bind ?_
  exact returns_pure _

theorem parseTurn_turns {data : Bytes} (hlen : data.length < 2 ^ 31) (cookie : Bool)
    (s : QueryParams × ℕ) :
    Turns Event.Sound (parseTurn data cookie) (fun s => parseFrom data cookie s.1 s.2)
      (fun s => data.length - s.2) s := by
  obtain ⟨params, start⟩ := s
  by_cases hstart : start < data.length
  · right
    have hlt := lt_next hlen cookie hstart
    refine ⟨_, parseTurn_next hlen cookie params hstart,
      parseFrom_next hlen cookie params hstart, ?_⟩
    change data.length - (nextStart data cookie _).getD npos < data.length - start
    omega
  · left
    have hdone : parseFrom data cookie params start = params := by
      rw [parseFrom, dif_neg hstart]
    unfold parseTurn
    simp only [if_neg hstart, hdone]
    exact returns_pure _

/-- On a text that fits an `int` the loop ends, every slice and every read is in bounds, every
turn moves `start` forward, and the result is that of the parser over natural numbers. -/
theorem parseParameters_returns (data : Bytes) (hlen : data.length < 2 ^ 31) (start : ℕ)
    (cookie : Bool) (fuel : ℕ) (hfuel : data.length < fuel) :
    Returns Event.Sound (parseParameters data start cookie fuel)
      (HttpParser.parseParameters data start cookie) :=
  loop_returns (s := (∅, start)) (parseTurn_turns hlen cookie) .outOfFuel
    (lt_of_le_of_lt (Nat.sub_le _ _) hfuel)

theorem parseParameters_returns_at :
    Returns Event.Sound (parseParameters (bytes "; a=\"%2\";%") 1 true 12)
      (HttpParser.parseParameters (bytes "; a=\"%2\";%") 1 true) :=
  parseParameters_returns _ (by decide) 1 true 12 (by decide)

end Parser

section Records

theorem slice_events (str : Bytes) (start stop : ℤ) :
    (slice str start stop).events = [.slice str.length start stop] := by
  change [Event.slice str.length start stop] ++ (substr str _ _).events = _
  unfold substr
  split_ifs <;> rfl

theorem percentDecodeTurn_reads {encoded : Bytes} (hlen : encoded.length < 2 ^ 31)
    (decoded : Bytes) {i : ℕ} (hi : i < encoded.length) :
    ∃ decoded' n, 0 < n ∧ i + n ≤ encoded.length ∧ percentDecodeTurn encoded (decoded, i) =
      ⟨(List.range' i n).map (Event.read encoded.length), .ok (.inl (decoded', i + n))⟩ := by
  have hread := fun j (hj : j < encoded.length) => read_eq (List.getElem?_eq_getElem hj)
  generalize hch : (if encoded[i] = plus then space else encoded[i]) = ch
  unfold percentDecodeTurn
  simp only [if_pos hi, wrap_eq (show i + 1 < 2 ^ 32 by omega),
    wrap_eq (show i + 2 < 2 ^ 32 by omega), wrap_eq (show i + 2 + 1 < 2 ^ 32 by omega)]
  rw [hread i hi, bind_eq rfl, hch]
  by_cases hescape : ch = percent ∧ i + 2 < encoded.length
  · refine ⟨decoded ++ [escapedChar encoded[i + 1] encoded[i + 2]], 3, by omega, by omega, ?_⟩
    rw [if_pos hescape, hread (i + 1) (by omega), bind_eq rfl, hread (i + 2) hescape.2, bind_eq rfl]
    rfl
  · refine ⟨decoded ++ [ch], 1, by omega, hi, ?_⟩
    rw [if_neg hescape]
    rfl

def decodeEvents (encoded : Bytes) : List Event :=
  (List.range encoded.length).map (Event.read encoded.length)

theorem decodeLoop_events {encoded : Bytes} (hlen : encoded.length < 2 ^ 31) {fuel : ℕ}
    (decoded : Bytes) {i : ℕ} (hi : i ≤ encoded.length) (hfuel : encoded.length - i < fuel) :
    (loop (percentDecodeTurn encoded) .outOfFuel fuel (decoded, i)).events =
      (List.range' i (encoded.length - i)).map (Event.read encoded.length) := by
  induction fuel generalizing decoded i with
  | zero => omega
  | succ fuel ih =>
    rcases hi.lt_or_eq with hlt | rfl
    · obtain ⟨decoded', n, hpos, hle, hturn⟩ := percentDecodeTurn_reads hlen decoded hlt
      have hsplit : encoded.length - i = n + (encoded.length - (i + n)) := by omega
      rw [loop_events (by rw [hturn]), hturn, ih decoded' hle (by omega), hsplit,
        ← List.range'_append_1, List.map_append]
    · have hend : percentDecodeTurn encoded (decoded, encoded.length) =
          ⟨[], .ok (.inr decoded)⟩ := if_neg (Nat.lt_irrefl _)
      rw [loop, hend, bind_eq rfl, Nat.sub_self]
      rfl

/-- The decoder reads every byte once, in order. -/
theorem percentDecode_events {encoded : Bytes} (hlen : encoded.length < 2 ^ 31) :
    (percentDecode encoded).events = decodeEvents encoded := by
  rw [percentDecode, decodeLoop_events hlen [] (Nat.zero_le _) (by omega), decodeEvents,
    List.range_eq_range', Nat.sub_zero]

def quoteEvents (cookie : Bool) (val : Bytes) : List Event :=
  if cookie ∧ 2 ≤ val.length then
    .read val.length (val.length - 1) :: if val.getLast? = some quote then
      .read val.length 0 :: if val[0]? = some quote then
        [.slice val.length 1 (val.length - 1 : ℕ)] else [] else []
  else []

theorem removeQuotes_events (cookie : Bool) {val : Bytes} (hlen : val.length < 2 ^ 31) :
    (removeQuotes cookie val).events = quoteEvents cookie val := by
  unfold removeQuotes quoteEvents
  by_cases hlong : cookie = true ∧ 2 ≤ val.length
  · have hback : val[val.length - 1]? = some val[val.length - 1] :=
      List.getElem?_eq_getElem (by omega)
    have hfront : val[0]? = some val[0] := List.getElem?_eq_getElem (by omega)
    rw [if_pos hlong, if_pos hlong, List.getLast?_eq_getElem?, hback, hfront, read_eq hback,
      read_eq hfront, bind_eq rfl]
    simp only [Option.some.injEq]
    by_cases hb : val[val.length - 1] = quote
    · rw [if_pos hb, if_pos hb, bind_eq rfl]
      by_cases hf : val[0] = quote
      · rw [if_pos hf, if_pos hf, slice_events, toInt_eq (by omega)]
        rfl
      · rw [if_neg hf, if_neg hf]
        rfl
    · rw [if_neg hb, if_neg hb]
      rfl
  · rw [if_neg hlong, if_neg hlong]
    rfl

def parameterEvents (data : Bytes) (cookie : Bool) (start stop : ℕ) : List Event :=
  .slice data.length start stop ::
    match HttpParser.find (HttpParser.slice data start stop) equals 0 with
    | none =>
      .slice data.length start stop :: decodeEvents (HttpParser.slice data start stop)
    | some equal =>
      .slice data.length start (start + equal : ℕ) ::
          decodeEvents (HttpParser.slice data start (start + equal)) ++
        .slice data.length (start + equal + 1 : ℕ) stop ::
          decodeEvents (HttpParser.slice data (start + equal + 1) stop) ++
        quoteEvents cookie
          (HttpParser.percentDecode (HttpParser.slice data (start + equal + 1) stop))

theorem emplaceParameter_events {data : Bytes} (hlen : data.length < 2 ^ 31) (cookie : Bool)
    (params : QueryParams) {start stop : ℕ} (h : start ≤ stop) (hstop : stop ≤ data.length) :
    (emplaceParameter data cookie params start stop).events =
      parameterEvents data cookie start stop := by
  have hparam := length_slice_le data start stop
  have hslice := slice_returns hlen h hstop
  have hstart : toInt start = start := toInt_eq (by omega)
  have hstop' : toInt stop = stop := toInt_eq (by omega)
  unfold emplaceParameter parameterEvents
  rw [bind_eq hslice.result, slice_events]
  cases hf : HttpParser.find (HttpParser.slice data start stop) equals 0 with
  | none =>
    simp only [find_none hf, ne_eq, not_true_eq_false, if_false]
    rw [bind_eq hslice.result, slice_events,
      bind_eq (decodeSlice_returns hlen start hstop).result, percentDecode_events (by omega),
      hstart, hstop']
    simp [pure]
  | some equal =>
    have hequal := lt_of_find hf
    obtain ⟨hfound, hnpos⟩ := find_some (by omega) hf
    have hkey := length_slice_le data start (start + equal)
    have hval := length_percentDecode_le (HttpParser.slice data (start + equal + 1) stop)
    have hback := length_slice_le data (start + equal + 1) stop
    simp only [hfound, ne_eq, hnpos, not_false_eq_true, if_true,
      wrap_eq (show start + equal < 2 ^ 32 by omega),
      wrap_eq (show start + equal + 1 < 2 ^ 32 by omega)]
    rw [bind_eq (slice_returns hlen (by omega) (by omega)).result, slice_events,
      bind_eq (decodeSlice_returns hlen start (by omega)).result, percentDecode_events (by omega),
      bind_eq (slice_returns hlen (by omega) hstop).result, slice_events,
      bind_eq (decodeSlice_returns hlen (start + equal + 1) hstop).result,
      percentDecode_events (by omega), bind_eq (removeQuotes_returns cookie (by omega)).result,
      removeQuotes_events cookie (by omega), hstart, hstop', toInt_eq (by omega),
      toInt_eq (by omega)]
    simp [pure]

/-- What a turn does, in order: the slices and reads of its parameter, and the move of `start`. -/
def turnEvents (data : Bytes) (cookie : Bool) (start : ℕ) : List Event :=
  parameterEvents data cookie start (stopOf data cookie start) ++
    [.turn start ((nextStart data cookie (stopOf data cookie start)).getD npos)]

theorem parseTurn_events {data : Bytes} (hlen : data.length < 2 ^ 31) (cookie : Bool)
    (params : QueryParams) {start : ℕ} (hstart : start < data.length) :
    (parseTurn data cookie (params, start)).events = turnEvents data cookie start := by
  have hle := stopOf_le data cookie start
  have hparam := emplaceParameter_returns hlen cookie params (le_stopOf cookie hstart) hle
  unfold parseTurn turnEvents
  simp only [if_pos hstart, stop_eq hlen,
    next_eq cookie (show stopOf data cookie start < 2 ^ 31 by omega)]
  rw [bind_eq hparam.result, emplaceParameter_events hlen cookie params (le_stopOf cookie hstart)
    hle]
  rfl

def eventsFrom (data : Bytes) (cookie : Bool) : ℕ → ℕ → List Event
  | 0, _ => []
  | fuel + 1, start =>
    if start < data.length then
      turnEvents data cookie start ++ eventsFrom data cookie fuel
        ((nextStart data cookie (stopOf data cookie start)).getD npos)
    else []

/-- The loop records every access of every turn, and nothing else. -/
theorem parseParameters_events {data : Bytes} (hlen : data.length < 2 ^ 31) (cookie : Bool)
    (start fuel : ℕ) :
    (parseParameters data start cookie fuel).events = eventsFrom data cookie fuel start := by
  unfold parseParameters
  generalize (∅ : QueryParams) = params
  induction fuel generalizing params start with
  | zero => rfl
  | succ fuel ih =>
    rw [eventsFrom]
    by_cases hstart : start < data.length
    · rw [if_pos hstart, loop_events (parseTurn_next hlen cookie params hstart).result,
        parseTurn_events hlen cookie params hstart, ih]
    · have hend : parseTurn data cookie (params, start) = ⟨[], .ok (.inr params)⟩ :=
        if_neg hstart
      rw [if_neg hstart, loop, hend, bind_eq rfl]
      rfl

end Records
end WafWasm.MachineParser
