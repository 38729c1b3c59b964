import WafWasm.Segments

set_option autoImplicit false

namespace WafWasm.CookieEncoding
open Common UnorderedContainers HttpParser DelimitedText Segments PercentEncoding

section Cookies

structure Item where
  name : Bytes
  val : Bytes
  wrapped : Bool

def Item.pair (item : Item) : Bytes × Bytes := (item.name, item.val)

def Item.read (item : Item) : Bytes × Bytes :=
  (item.name, if item.wrapped then item.val else unquote true item.val)

def cookieAlphabet : Alphabet where
  literal b := b ≠ percent ∧ b ≠ plus ∧ b ≠ semicolon ∧ b ≠ equals ∧ b ≠ quote ∧ b ≠ space
  plusForSpace := False

instance : DecidablePred cookieAlphabet.literal := fun b =>
  inferInstanceAs (Decidable (b ≠ percent ∧ b ≠ plus ∧ b ≠ semicolon ∧ b ≠ equals ∧
    b ≠ quote ∧ b ≠ space))

theorem encodes_itself {b : UInt8} {bs e : Bytes} (hb : cookieAlphabet.literal b)
    (h : Encodes cookieAlphabet bs e) : Encodes cookieAlphabet (b :: bs) (b :: e) :=
  .cons (.itself hb) h

theorem encodes_quote {bs e : Bytes} (h : Encodes cookieAlphabet bs e) :
    Encodes cookieAlphabet (quote :: bs) (bytes "%22" ++ e) :=
  .cons (@EncodesByte.escape _ _ 0x32 0x32 2 2 (by decide) (by decide) (by decide)) h

def EncodesItem (item : Item) (e : Bytes) : Prop :=
  ∃ name val, Encodes cookieAlphabet item.name name ∧ Encodes cookieAlphabet item.val val ∧
    e = name ++ equals :: if item.wrapped then quote :: (val ++ [quote]) else val

inductive EncodesCookie : List Item → Bytes → Prop where
  | single {item : Item} {e : Bytes} (head : EncodesItem item e) : EncodesCookie [item] e
  | cons {item : Item} {items : List Item} {e es : Bytes} (head : EncodesItem item e)
      (blanks : ℕ) (tail : EncodesCookie items es) :
      EncodesCookie (item :: items) (e ++ semicolon :: (List.replicate blanks space ++ es))

/-- The value begins and ends with quotes of its own. -/
def Enclosed (val : Bytes) : Prop :=
  2 ≤ val.length ∧ val.getLast? = some quote ∧ val[0]? = some quote

theorem avoids_syntax {bs e : Bytes} (h : Encodes cookieAlphabet bs e) {d : UInt8}
    (hd : d = semicolon ∨ d = equals ∨ d = space) : d ∉ e := by
  rcases hd with rfl | rfl | rfl
  · exact h.avoids (fun hl => hl.2.2.1 rfl) (by decide) (by decide) (by decide)
  · exact h.avoids (fun hl => hl.2.2.2.1 rfl) (by decide) (by decide) (by decide)
  · exact h.avoids (fun hl => hl.2.2.2.2.2 rfl) (by decide) (by decide) (by decide)

theorem EncodesItem.notMem {item : Item} {e : Bytes} (h : EncodesItem item e) {d : UInt8}
    (hd : d = semicolon ∨ d = space) : d ∉ e := by
  obtain ⟨name, val, hname, hval, rfl⟩ := h
  have hn : d ∉ name := avoids_syntax hname (hd.elim .inl fun hs => .inr (.inr hs))
  have hv : d ∉ val := avoids_syntax hval (hd.elim .inl fun hs => .inr (.inr hs))
  have hequals : d ≠ equals := by rcases hd with rfl | rfl <;> decide
  have hquote : d ≠ quote := by rcases hd with rfl | rfl <;> decide
  cases item.wrapped <;> simp [hn, hv, hequals, hquote]

theorem EncodesItem.ne_nil {item : Item} {e : Bytes} (h : EncodesItem item e) : e ≠ [] := by
  obtain ⟨name, val, _, _, rfl⟩ := h
  exact List.append_ne_nil_of_right_ne_nil _ (List.cons_ne_nil _ _)

theorem decode_wrapped {bs e : Bytes} (h : Encodes cookieAlphabet bs e) :
    decodeBytes (quote :: (e ++ [quote])) = quote :: (bs ++ [quote]) := by
  rw [decodeBytes_plain (by decide), h.decode_append fun b hb => ⟨hb.1, hb.2.1⟩]
  rfl

theorem unquote_wrapped (bs : Bytes) : unquote true (quote :: (bs ++ [quote])) = bs := by
  have hlast : (quote :: (bs ++ [quote])).getLast? = some quote := by
    rw [← List.cons_append, List.getLast?_concat]
  rw [unquote, if_pos ⟨rfl, by simp, hlast, rfl⟩, List.tail_cons, List.dropLast_concat]

theorem EncodesItem.readSegment {item : Item} {e : Bytes} (h : EncodesItem item e) :
    readSegment true e = item.read := by
  obtain ⟨name, val, hname, hval, rfl⟩ := h
  have hn : equals ∉ name := avoids_syntax hname (.inr (.inl rfl))
  rw [readSegment_pair true hn, hname.decode fun b hb => ⟨hb.1, hb.2.1⟩, Item.read]
  cases item.wrapped with
  | false =>
    change (_, unquote true (decodeBytes val)) = _
    rw [hval.decode fun b hb => ⟨hb.1, hb.2.1⟩]
    rfl
  | true =>
    change (_, unquote true (decodeBytes (quote :: (val ++ [quote])))) = _
    rw [decode_wrapped hval, unquote_wrapped]
    rfl

theorem EncodesItem.dropWhile_append {item : Item} {e : Bytes} (h : EncodesItem item e)
    (rest : Bytes) : (e ++ rest).dropWhile (padding true) = e ++ rest := by
  obtain ⟨b, bs, rfl⟩ := List.exists_cons_of_ne_nil h.ne_nil
  have hb : b ≠ space := fun he => h.notMem (.inr rfl) (he ▸ List.mem_cons_self)
  rw [List.cons_append, List.dropWhile_cons_of_neg (by simp [padding, hb])]

theorem EncodesCookie.dropWhile {items : List Item} {text : Bytes}
    (h : EncodesCookie items text) : text.dropWhile (padding true) = text := by
  cases h with
  | single head =>
    have hend := head.dropWhile_append []
    rwa [List.append_nil] at hend
  | cons head blanks tail => exact head.dropWhile_append _

theorem parameters_cookie {items : List Item} {text : Bytes} (h : EncodesCookie items text) :
    parameters true text = items.map Item.read := by
  induction h with
  | @single item e head =>
    have hfields : segments true e = [e] :=
      fields_of_notMem (padding true) (head.notMem (.inl rfl)) head.ne_nil
    rw [parameters, hfields, List.map_singleton, head.readSegment, List.map_singleton]
  | @cons item items e es head blanks tail ih =>
    have hblanks : ∀ b ∈ List.replicate blanks space, padding true b = true := by
      intro b hb
      rw [List.eq_of_mem_replicate hb]
      rfl
    have hfields : segments true (e ++ semicolon :: (List.replicate blanks space ++ es)) =
        e :: segments true es := by
      change fields (padding true) (separator true) (e ++ separator true :: _) = _
      rw [fields_cut (padding_separator true) (head.notMem (.inl rfl)),
        List.dropWhile_append_of_pos hblanks, tail.dropWhile]
      rfl
    rw [parameters, hfields, List.map_cons, head.readSegment, List.map_cons, ← ih]
    rfl

end Cookies

section RoundTrip

theorem unquote_eq_self_iff (val : Bytes) : unquote true val = val ↔ ¬ Enclosed val := by
  unfold unquote Enclosed
  split_ifs with h
  · refine iff_of_false ?_ (not_not.mpr h.2)
    intro he
    have hlen := congrArg List.length he
    rw [List.length_dropLast, List.length_tail] at hlen
    omega
  · exact iff_of_true rfl fun hval => h ⟨rfl, hval⟩

theorem Item.read_eq_pair_iff (item : Item) :
    item.read = item.pair ↔ (item.wrapped = false → ¬ Enclosed item.val) := by
  rcases item with ⟨name, val, _ | _⟩
  · change (name, unquote true val) = (name, val) ↔ (false = false → ¬ Enclosed val)
    rw [Prod.mk.injEq, unquote_eq_self_iff]
    simp
  · exact iff_of_true rfl (by simp)

/-- Parsing undoes cookie encoding unless a value that stands bare has quotes of its own. -/
theorem parse_undoes_cookie_encoding_iff (items : List Item) (text : Bytes)
    (hnames : (items.map Item.name).Nodup) (h : EncodesCookie items text) :
    (∀ name val, (parseCookie text).lookup name = some val ↔
        (name, val) ∈ items.map Item.pair) ↔
      ∀ item ∈ items, item.wrapped = false → ¬ Enclosed item.val := by
  have hread : ((items.map Item.read).map Prod.fst).Nodup := by rwa [List.map_map]
  have hpair : ((items.map Item.pair).map Prod.fst).Nodup := by rwa [List.map_map]
  have hlookup : ∀ name val, (parseCookie text).lookup name = some val ↔
      (name, val) ∈ items.map Item.read := by
    intro name val
    rw [parseCookie_eq, parameters_cookie h, lookup_collect]
    exact lookup_iff_mem hread name val
  constructor
  · intro hparse item hitem
    rw [← item.read_eq_pair_iff]
    have hmem : item.read ∈ items.map Item.pair :=
      (hparse _ _).mp ((hlookup _ _).mpr (List.mem_map_of_mem hitem))
    have hval := (lookup_iff_mem hpair _ _).mpr hmem
    have hown := (lookup_iff_mem hpair _ _).mpr (List.mem_map_of_mem (f := Item.pair) hitem)
    exact Prod.ext rfl (Option.some.inj (hval.symm.trans hown))
  · intro hbare name val
    have hsame : items.map Item.read = items.map Item.pair :=
      List.map_congr_left fun item hitem => item.read_eq_pair_iff.mpr (hbare item hitem)
    rw [hlookup, hsame]

theorem parse_undoes_cookie_encoding_at :
    (∀ name val, (parseCookie (bytes "a=\"%22\";  b=%2b")).lookup name = some val ↔
        (name, val) ∈ [(bytes "a", [quote]), (bytes "b", [plus])]) ↔
      ∀ item ∈ [Item.mk (bytes "a") [quote] true, Item.mk (bytes "b") [plus] false],
        item.wrapped = false → ¬ Enclosed item.val := by
  have hplus : Encodes cookieAlphabet [plus] (bytes "%2b") :=
    .cons (@EncodesByte.escape _ _ 0x32 0x62 2 11 (by decide) (by decide) (by decide)) .nil
  have ha : EncodesItem ⟨bytes "a", [quote], true⟩ (bytes "a=\"%22\"") :=
    ⟨_, _, encodes_itself (by decide) .nil, encodes_quote .nil, rfl⟩
  have hb : EncodesItem ⟨bytes "b", [plus], false⟩ (bytes "b=%2b") :=
    ⟨_, _, encodes_itself (by decide) .nil, hplus, rfl⟩
  exact parse_undoes_cookie_encoding_iff _ _ (by decide) (.cons ha 2 (.single hb))

theorem parseCookie_strips_own_quotes :
    EncodesCookie [⟨bytes "a", bytes "\"x\"", false⟩] (bytes "a=%22x%22") ∧
      (parseCookie (bytes "a=%22x%22")).lookup (bytes "a") = some (bytes "x") := by
  have hval : Encodes cookieAlphabet (bytes "\"x\"") (bytes "%22x%22") :=
    encodes_quote (encodes_itself (by decide) (encodes_quote .nil))
  refine ⟨.single ⟨bytes "a", _, encodes_itself (by decide) .nil, hval, rfl⟩, ?_⟩
  rw [parseCookie_eq, lookup_collect]
  decide

end RoundTrip
end WafWasm.CookieEncoding
