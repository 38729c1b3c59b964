import WafWasm.Segments

set_option autoImplicit false

namespace WafWasm.FormEncoding
open Common UnorderedContainers HttpParser DelimitedText Segments PercentEncoding

section Forms

def keyAlphabet : Alphabet where
  literal b := b ≠ percent ∧ b ≠ plus ∧ b ≠ ampersand ∧ b ≠ equals
  plusForSpace := True

def valueAlphabet : Alphabet where
  literal b := b ≠ percent ∧ b ≠ plus ∧ b ≠ ampersand
  plusForSpace := True

def EncodesPair (p : Bytes × Bytes) (e : Bytes) : Prop :=
  ∃ key val, Encodes keyAlphabet p.1 key ∧ Encodes valueAlphabet p.2 val ∧ e = key ++ equals :: val

def EncodesForm (ps : List (Bytes × Bytes)) (e : Bytes) : Prop :=
  ∃ es, List.Forall₂ EncodesPair ps es ∧ e = [ampersand].intercalate es

theorem EncodesPair.notMem_ampersand {p : Bytes × Bytes} {e : Bytes} (h : EncodesPair p e) :
    ampersand ∉ e := by
  obtain ⟨key, val, hkey, hval, rfl⟩ := h
  have hk : ampersand ∉ key :=
    hkey.avoids (fun h => h.2.2.1 rfl) (by decide) (by decide) (by decide)
  have hv : ampersand ∉ val :=
    hval.avoids (fun h => h.2.2 rfl) (by decide) (by decide) (by decide)
  intro hm
  rcases List.mem_append.mp hm with hm | hm
  · exact hk hm
  · rcases List.mem_cons.mp hm with hm | hm
    · exact absurd hm (by decide)
    · exact hv hm

theorem EncodesPair.ne_nil {p : Bytes × Bytes} {e : Bytes} (h : EncodesPair p e) : e ≠ [] := by
  obtain ⟨key, val, _, _, rfl⟩ := h
  exact List.append_ne_nil_of_right_ne_nil _ (List.cons_ne_nil _ _)

theorem EncodesPair.readSegment {p : Bytes × Bytes} {e : Bytes} (h : EncodesPair p e) :
    readSegment false e = p := by
  obtain ⟨key, val, hkey, hval, rfl⟩ := h
  have hk : equals ∉ key :=
    hkey.avoids (fun h => h.2.2.2 rfl) (by decide) (by decide) (by decide)
  rw [readSegment_pair false hk, hkey.decode fun b hb => ⟨hb.1, hb.2.1⟩,
    hval.decode fun b hb => ⟨hb.1, hb.2.1⟩]
  rfl

theorem exists_pair_of_mem {ps : List (Bytes × Bytes)} {es : List Bytes}
    (h : List.Forall₂ EncodesPair ps es) {e : Bytes} (he : e ∈ es) : ∃ p, EncodesPair p e := by
  induction h with
  | nil => cases he
  | cons head tail ih =>
    rcases List.mem_cons.mp he with rfl | he
    · exact ⟨_, head⟩
    · exact ih he

theorem map_readSegment {ps : List (Bytes × Bytes)} {es : List Bytes}
    (h : List.Forall₂ EncodesPair ps es) : es.map (readSegment false) = ps := by
  induction h with
  | nil => rfl
  | cons head tail ih => rw [List.map_cons, head.readSegment, ih]

theorem parameters_form {ps : List (Bytes × Bytes)} {e : Bytes} (h : EncodesForm ps e) :
    parameters false e = ps := by
  obtain ⟨es, hes, rfl⟩ := h
  have hpiece : ∀ piece ∈ es, piece ≠ [] ∧ ampersand ∉ piece := by
    intro piece hp
    obtain ⟨p, hpair⟩ := exists_pair_of_mem hes hp
    exact ⟨hpair.ne_nil, hpair.notMem_ampersand⟩
  have hpad : padding false = fun _ => false := rfl
  rw [parameters, segments, hpad]
  change (fields _ ampersand _).map _ = _
  rw [fields_intercalate ampersand (fun p hp => (hpiece p hp).1) (fun p hp => (hpiece p hp).2)]
  exact map_readSegment hes

theorem query_append {front : Bytes} (h : questionMark ∉ front) (e : Bytes) :
    query (front ++ questionMark :: e) = e := by
  have hfront : ∀ b ∈ front, (!(b == questionMark)) = true := by
    intro b hb
    have hne : b ≠ questionMark := fun he => h (he ▸ hb)
    simp [hne]
  rw [query, List.dropWhile_append_of_pos hfront, List.dropWhile_cons_of_neg (by simp),
    List.tail_cons]

end Forms

section RoundTrip

/-- Parsing undoes form encoding, for a body and behind the question mark of a path. -/
theorem parse_undoes_encoding (ps : List (Bytes × Bytes)) (e : Bytes)
    (hkeys : (ps.map Prod.fst).Nodup) (he : EncodesForm ps e) :
    (∀ key val, (parseBody e).lookup key = some val ↔ (key, val) ∈ ps) ∧
      ∀ front, questionMark ∉ front → parsePath (front ++ questionMark :: e) = parseBody e := by
  have hbody : parseBody e = collect ps := by rw [parseBody_eq, parameters_form he]
  refine ⟨?_, ?_⟩
  · intro key val
    rw [hbody, lookup_collect]
    exact lookup_iff_mem hkeys key val
  · intro front hfront
    rw [parsePath_eq, query_append hfront, parseBody_eq]

theorem parse_undoes_encoding_at :
    (∀ key val, (parseBody (bytes "a+b=%e9=")).lookup key = some val ↔
        (key, val) ∈ [(bytes "a b", [0xE9, equals])]) ∧
      ∀ front, questionMark ∉ front →
        parsePath (front ++ questionMark :: bytes "a+b=%e9=") = parseBody (bytes "a+b=%e9=") := by
  have hkey : Encodes keyAlphabet (bytes "a b") (bytes "a+b") :=
    .cons (.itself (by unfold keyAlphabet; decide)) (.cons (.spacePlus trivial rfl)
      (.cons (.itself (by unfold keyAlphabet; decide)) .nil))
  have hval : Encodes valueAlphabet [0xE9, equals] (bytes "%e9=") :=
    .cons (@EncodesByte.escape _ _ 0x65 0x39 14 9 (by decide) (by decide) (by decide))
      (.cons (.itself (by unfold valueAlphabet; decide)) .nil)
  exact parse_undoes_encoding _ _ (by decide)
    ⟨[bytes "a+b=%e9="], .cons ⟨_, _, hkey, hval, rfl⟩ .nil, rfl⟩

end RoundTrip
end WafWasm.FormEncoding
