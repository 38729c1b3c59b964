import WafWasm.BodyCallback

set_option autoImplicit false

namespace WafWasm.BodyChunks
open Common UnorderedContainers DelimitedText Sqli Detection ConfigParser Contexts Segments
open BodyCallback

variable (detectSQLi : Bytes → Bool)

/-- The statuses of successive calls, up to the first that is not `Continue`. -/
def deliver (order : IterationOrder) (ctx : ExampleContext) : List Bytes → List FilterDataStatus
  | [] => []
  | chunk :: chunks =>
    let out := onRequestBody detectSQLi order ctx chunk
    match out.status with
    | .continue => .continue :: deliver order out.context chunks
    | .stopIterationAndBuffer => [.stopIterationAndBuffer]

theorem mem_deliver_iff (order : IterationOrder) (ctx : ExampleContext) (chunks : List Bytes)
    (htype : ctx.contentType = urlencoded) :
    .stopIterationAndBuffer ∈ deliver detectSQLi order ctx chunks ↔
      ∃ chunk ∈ chunks, BodyStage detectSQLi ctx.config chunk := by
  induction chunks with
  | nil => simp [deliver]
  | cons chunk chunks ih =>
    by_cases hbody : BodyStage detectSQLi ctx.config chunk
    · have hstop : deliver detectSQLi order ctx (chunk :: chunks) = [.stopIterationAndBuffer] := by
        rw [deliver, body_of_hit order htype hbody]
      rw [hstop]
      exact iff_of_true List.mem_cons_self ⟨chunk, List.mem_cons_self, hbody⟩
    · have hpass : deliver detectSQLi order ctx (chunk :: chunks) =
          .continue :: deliver detectSQLi order ctx chunks := by
        rw [deliver, body_of_clean order hbody]
      rw [hpass, List.mem_cons, ih, or_iff_right (by decide)]
      constructor
      · rintro ⟨c, hc, hs⟩
        exact ⟨c, List.mem_cons_of_mem _ hc, hs⟩
      · rintro ⟨c, hc, hs⟩
        rcases List.mem_cons.mp hc with rfl | hc
        · exact absurd hs hbody
        · exact ⟨c, hc, hs⟩

section Segments

def nameOf (segment : Bytes) : Bytes := (readSegment false segment).1

def names (text : Bytes) : List Bytes := (parameters false text).map Prod.fst

theorem parameters_stands {front segment back : Bytes} (h : Stands ampersand front segment back) :
    parameters false (front ++ (segment ++ back)) =
      parameters false front ++ readSegment false segment :: parameters false back.tail := by
  have hcut := fields_stands h
  change (fields (fun _ => false) ampersand _).map _ = _
  rw [hcut, List.map_append]
  rfl

theorem names_opens {front : Bytes} (h : Opens ampersand front) (text : Bytes) :
    names (front ++ text) = names front ++ names text := by
  have hcut := fields_opens h text
  change ((fields (fun _ => false) ampersand _).map _).map _ = _
  rw [hcut, List.map_append, List.map_append]
  rfl

theorem names_cut {head : Bytes} (h : ampersand ∉ head) (text : Bytes) :
    names (head ++ ampersand :: text) = nameOf head :: names text := by
  have hcut := fields_cut_unpadded h text
  change ((fields (fun _ => false) ampersand _).map _).map _ = _
  rw [hcut]
  rfl

/-- A hit, and the first of its name behind `front`. -/
structure FirstHitAt (sel : Selection) (front segment : Bytes) : Prop where
  hit : Hit detectSQLi sel (readSegment false segment)
  first : nameOf segment ∉ names front

theorem bodyStage_iff_segment (config : Config) (text : Bytes) :
    BodyStage detectSQLi config text ↔ ∃ front segment back, text = front ++ (segment ++ back) ∧
      Stands ampersand front segment back ∧
        FirstHitAt detectSQLi (config.part .body) front segment := by
  rw [bodyStage_iff]
  constructor
  · rintro ⟨before, p, after, hparameters, hfirst, hhit⟩
    obtain ⟨fronts, rest, hsegments, rfl, hrest⟩ := List.map_eq_append_iff.mp hparameters
    obtain ⟨segment, backs, rfl, rfl, -⟩ := List.map_eq_cons_iff.mp hrest
    obtain ⟨front, back, rfl, hstands, hfronts⟩ := stands_of_fields hsegments
    refine ⟨front, segment, back, rfl, hstands, hhit, ?_⟩
    rw [← hfronts] at hfirst
    exact hfirst
  · rintro ⟨front, segment, back, rfl, hstands, hhit, hfirst⟩
    exact ⟨_, _, _, parameters_stands hstands, hfirst, hhit⟩

end Segments

section Cuts

/-- A chunk with the chunks around it, and a segment that is read from it. -/
structure ChunkSegment (chunks before after : List Bytes) (front segment back : Bytes) : Prop where
  cut : chunks = before ++ (front ++ (segment ++ back)) :: after
  stands : Stands ampersand front segment back

/-- What the chunk reads is a piece of a segment of the body: the chunk starts inside of that
segment or in front of the `&` behind it, or it ends inside. -/
def TornPiece (before after : List Bytes) (front back : Bytes) : Prop :=
  (front = [] ∧ ¬Opens ampersand before.flatten) ∨ (back = [] ∧ ¬Closes ampersand after.flatten)

/-- A chunk ends inside of the segment of the body. -/
def Torn (chunks : List Bytes) (front segment : Bytes) : Prop :=
  ∃ before after, chunks = before ++ after ∧ front.length < before.flatten.length ∧
    before.flatten.length < front.length + segment.length

/-- The chunk that has the segment starts with a torn piece of the same name. -/
def Shadowed (chunks : List Bytes) (front segment : Bytes) : Prop :=
  ∃ before after head rest back,
    ChunkSegment chunks before after (head ++ ampersand :: rest) segment back ∧
      front = before.flatten ++ (head ++ ampersand :: rest) ∧ ampersand ∉ head ∧
        ¬Opens ampersand before.flatten ∧ nameOf head = nameOf segment

/-- A hit that is a segment of the body and of a chunk, in both the first of its name. -/
def KeptHit (sel : Selection) (chunks : List Bytes) : Prop :=
  ∃ before after front segment back, ChunkSegment chunks before after front segment back ∧
    ¬TornPiece before after front back ∧ FirstHitAt detectSQLi sel front segment ∧
      nameOf segment ∉ names (before.flatten ++ front)

/-- A hit of the body that is torn, or shadowed in its chunk. -/
def LostHit (sel : Selection) (chunks : List Bytes) : Prop :=
  ∃ front segment back, chunks.flatten = front ++ (segment ++ back) ∧
    Stands ampersand front segment back ∧ FirstHitAt detectSQLi sel front segment ∧
      (Torn chunks front segment ∨ Shadowed chunks front segment)

/-- A hit of a chunk that is a torn piece, or has the name of an earlier segment of the body. -/
def GainedHit (sel : Selection) (chunks : List Bytes) : Prop :=
  ∃ before after front segment back, ChunkSegment chunks before after front segment back ∧
    FirstHitAt detectSQLi sel front segment ∧
      (TornPiece before after front back ∨ nameOf segment ∈ names (before.flatten ++ front))

variable {chunks before after : List Bytes} {front segment back : Bytes}

theorem ChunkSegment.whole (h : ChunkSegment chunks before after front segment back)
    (hpiece : ¬TornPiece before after front back) : chunks.flatten =
        (before.flatten ++ front) ++ (segment ++ (back ++ after.flatten)) ∧
      Stands ampersand (before.flatten ++ front) segment (back ++ after.flatten) := by
  rw [TornPiece, not_or] at hpiece
  have hopens : Opens ampersand (before.flatten ++ front) :=
    opens_append _ h.stands.opens fun hnil => by_contra fun hnot => hpiece.1 ⟨hnil, hnot⟩
  have hcloses : Closes ampersand (back ++ after.flatten) :=
    closes_append _ h.stands.closes fun hnil => by_contra fun hnot => hpiece.2 ⟨hnil, hnot⟩
  refine ⟨?_, hopens, h.stands.free, hcloses, ?_⟩
  · rw [h.cut, List.flatten_append, List.flatten_cons]
    simp only [List.append_assoc]
  · exact h.stands.counts.imp_right fun hback hnil => hback (List.append_eq_nil_iff.mp hnil).1

theorem exists_chunk_at {rest : Bytes} (h : chunks.flatten = front ++ rest) (hrest : rest ≠ []) :
    ∃ before after chunkFront chunkRest, chunks = before ++ (chunkFront ++ chunkRest) :: after ∧
      front = before.flatten ++ chunkFront ∧ rest = chunkRest ++ after.flatten ∧
        chunkRest ≠ [] := by
  induction chunks generalizing front with
  | nil => exact absurd (List.append_eq_nil_iff.mp h.symm).2 hrest
  | cons chunk chunks ih =>
    rw [List.flatten_cons] at h
    rcases List.append_eq_append_iff.mp h with ⟨later, rfl, hlater⟩ | ⟨chunkRest, rfl, hsplit⟩
    · obtain ⟨before, after, chunkFront, chunkRest, rfl, rfl, hends, hne⟩ := ih hlater
      refine ⟨chunk :: before, after, chunkFront, chunkRest, rfl, ?_, hends, hne⟩
      rw [List.flatten_cons, List.append_assoc]
    · by_cases hempty : chunkRest = []
      · rw [hempty, List.nil_append] at hsplit
        obtain ⟨before, after, chunkFront, chunkRest', rfl, hfront, hends, hne⟩ :=
          @ih [] hsplit.symm
        refine ⟨(front ++ chunkRest) :: before, after, chunkFront, chunkRest', rfl, ?_, hends, hne⟩
        rw [List.flatten_cons, List.append_assoc, List.append_assoc, ← hfront, hempty,
          List.append_nil, List.append_nil]
      · exact ⟨[], chunks, front, chunkRest, rfl, rfl, hsplit, hempty⟩

theorem chunkSegment_of_untorn (htext : chunks.flatten = front ++ (segment ++ back))
    (hstands : Stands ampersand front segment back) (hcuts : ¬Torn chunks front segment) :
    ∃ before after chunkFront chunkBack,
      ChunkSegment chunks before after chunkFront segment chunkBack ∧
        front = before.flatten ++ chunkFront ∧ back = chunkBack ++ after.flatten := by
  have hrest : segment ++ back ≠ [] := by
    intro hnil
    obtain ⟨hsegment, hback⟩ := List.append_eq_nil_iff.mp hnil
    exact hstands.counts.elim (· hsegment) (· hback)
  obtain ⟨before, after, chunkFront, chunkRest, rfl, rfl, hsplit, hne⟩ :=
    exists_chunk_at htext hrest
  -- the chunk goes on to the end of the segment, or its end would be a cut inside of it
  have hlength : segment.length ≤ chunkRest.length := by
    refine Nat.le_of_not_lt fun hlt => hcuts ?_
    refine ⟨before ++ [chunkFront ++ chunkRest], after, by rw [List.append_assoc]; rfl, ?_, ?_⟩
    · have hpos := List.length_pos_iff.mpr hne
      rw [List.flatten_append, List.flatten_singleton]
      simp only [List.length_append]
      omega
    · rw [List.flatten_append, List.flatten_singleton]
      simp only [List.length_append]
      omega
  obtain ⟨chunkBack, rfl, hback⟩ : ∃ chunkBack, chunkRest = segment ++ chunkBack ∧
      back = chunkBack ++ after.flatten := by
    rcases List.append_eq_append_iff.mp hsplit with ⟨tail, rfl, htail⟩ | ⟨tail, hsegment, htail⟩
    · exact ⟨tail, rfl, htail⟩
    · have hsame := congrArg List.length hsegment
      rw [List.length_append] at hsame
      have hnil : tail = [] := List.length_eq_zero_iff.mp (by omega)
      subst hnil
      refine ⟨[], ?_, htail.symm⟩
      rw [hsegment, List.append_nil, List.append_nil]
  refine ⟨before, after, chunkFront, chunkBack, ⟨rfl, ?_, hstands.free, ?_, ?_⟩, rfl, hback⟩
  · rcases hstands.opens.cases with hnil | ⟨rest, hlast⟩
    · exact .inl (List.append_eq_nil_iff.mp hnil).2
    · rcases chunkFront.eq_nil_or_concat with rfl | ⟨most, last, rfl⟩
      · exact .inl rfl
      · rw [List.concat_eq_append, ← List.append_assoc] at hlast
        obtain ⟨-, hamp⟩ := List.append_inj' hlast rfl
        right
        rw [List.concat_eq_append, List.getLast?_concat, List.singleton_inj.mp hamp]
  · rcases chunkBack with _ | ⟨ch, tail⟩
    · exact .inl rfl
    · rw [hback] at hstands
      rcases hstands.closes with hnil | hamp
      · exact absurd hnil (List.cons_ne_nil _ _)
      · exact .inr hamp
  · by_cases hnil : segment = []
    · refine .inr fun hempty => hne ?_
      rw [hnil, hempty, List.append_nil]
    · exact .inl hnil

/-- Only the piece that its chunk starts with can shadow the first segment of a name. -/
theorem shadowed_of_repeated (h : ChunkSegment chunks before after front segment back)
    (hfirst : nameOf segment ∉ names (before.flatten ++ front))
    (hrepeated : nameOf segment ∈ names front) :
    Shadowed chunks (before.flatten ++ front) segment := by
  have hopens : ¬Opens ampersand before.flatten := by
    intro hopens
    rw [names_opens hopens] at hfirst
    exact hfirst (List.mem_append_right _ hrepeated)
  have hamp : ampersand ∈ front := by
    rcases h.stands.opens.cases with rfl | ⟨rest, rfl⟩
    · cases hrepeated
    · exact List.mem_append_right _ (.head _)
  obtain ⟨head, rest, rfl, hhead⟩ := List.eq_append_cons_of_mem hamp
  refine ⟨before, after, head, rest, back, h, rfl, hhead, hopens, ?_⟩
  rw [names_cut hhead] at hrepeated
  refine ((List.mem_cons.mp hrepeated).resolve_right fun hlater => hfirst ?_).symm
  -- what the chunk reads behind its first `&` the body reads too
  have hbehind : Opens ampersand (before.flatten ++ (head ++ [ampersand])) :=
    .inr (by rw [← List.append_assoc, List.getLast?_concat])
  have hsplit : before.flatten ++ (head ++ ampersand :: rest) =
      (before.flatten ++ (head ++ [ampersand])) ++ rest := by
    simp only [List.append_assoc, List.singleton_append]
  rw [hsplit, names_opens hbehind]
  exact List.mem_append_right _ hlater

theorem whole_iff (config : Config) (chunks : List Bytes) :
    BodyStage detectSQLi config chunks.flatten ↔
      KeptHit detectSQLi (config.part .body) chunks ∨
        LostHit detectSQLi (config.part .body) chunks := by
  rw [bodyStage_iff_segment]
  constructor
  · rintro ⟨front, segment, back, htext, hstands, hhit⟩
    by_cases hcuts : Torn chunks front segment
    · exact .inr ⟨front, segment, back, htext, hstands, hhit, .inl hcuts⟩
    · obtain ⟨before, after, chunkFront, chunkBack, hchunk, rfl, rfl⟩ :=
        chunkSegment_of_untorn htext hstands hcuts
      by_cases hrepeated : nameOf segment ∈ names chunkFront
      · have hshadowed := shadowed_of_repeated hchunk hhit.first hrepeated
        exact .inr ⟨_, segment, _, htext, hstands, hhit, .inr hshadowed⟩
      · refine .inl ⟨before, after, chunkFront, segment, chunkBack, hchunk, ?_,
          ⟨hhit.hit, hrepeated⟩, hhit.first⟩
        rintro (⟨rfl, hopens⟩ | ⟨rfl, hcloses⟩)
        · have hfront := hstands.opens
          rw [List.append_nil] at hfront
          exact hopens hfront
        · exact hcloses hstands.closes
  · rintro (⟨before, after, front, segment, back, hchunk, hwhole, hhit, hfirst⟩ |
      ⟨front, segment, back, htext, hstands, hhit, -⟩)
    · obtain ⟨htext, hstands⟩ := hchunk.whole hwhole
      exact ⟨_, segment, _, htext, hstands, hhit.hit, hfirst⟩
    · exact ⟨front, segment, back, htext, hstands, hhit⟩

theorem pieces_iff (config : Config) (chunks : List Bytes) :
    (∃ chunk ∈ chunks, BodyStage detectSQLi config chunk) ↔
      KeptHit detectSQLi (config.part .body) chunks ∨
        GainedHit detectSQLi (config.part .body) chunks := by
  constructor
  · rintro ⟨chunk, hmem, hstage⟩
    obtain ⟨before, after, rfl⟩ := List.append_of_mem hmem
    obtain ⟨front, segment, back, rfl, hstands, hhit⟩ :=
      (bodyStage_iff_segment detectSQLi config chunk).mp hstage
    by_cases hgained : TornPiece before after front back ∨
        nameOf segment ∈ names (before.flatten ++ front)
    · exact .inr ⟨before, after, front, segment, back, ⟨rfl, hstands⟩, hhit, hgained⟩
    · rw [not_or] at hgained
      exact .inl ⟨before, after, front, segment, back, ⟨rfl, hstands⟩, hgained.1, hhit, hgained.2⟩
  · rintro (⟨before, after, front, segment, back, hchunk, -, hhit, -⟩ |
      ⟨before, after, front, segment, back, hchunk, hhit, -⟩) <;>
    · refine ⟨front ++ (segment ++ back), ?_, ?_⟩
      · rw [hchunk.cut]
        exact List.mem_append_right _ (.head _)
      · exact (bodyStage_iff_segment detectSQLi config _).mpr
          ⟨front, segment, back, rfl, hchunk.stands, hhit⟩

end Cuts

/-- Chunked and whole delivery agree if a hit is left whole and unshadowed, and otherwise exactly
if the cuts both lose and make a hit, or neither. -/
theorem chunks_iff (order order' : IterationOrder) (ctx : ExampleContext) (chunks : List Bytes)
    (htype : ctx.contentType = urlencoded) :
    (.stopIterationAndBuffer ∈ deliver detectSQLi order ctx chunks ↔
        (onRequestBody detectSQLi order' ctx chunks.flatten).status = .stopIterationAndBuffer) ↔
      KeptHit detectSQLi (ctx.config.part .body) chunks ∨
        (LostHit detectSQLi (ctx.config.part .body) chunks ↔
          GainedHit detectSQLi (ctx.config.part .body) chunks) := by
  rw [mem_deliver_iff detectSQLi order ctx chunks htype, body_stops_iff order' htype, pieces_iff,
    whole_iff, agree_iff]
  exact or_congr_right iff_comm

theorem chunks_iff_at :
    (.stopIterationAndBuffer ∈ deliver (· == bytes "1' or 1=1") .toList ⟨urlencoded, {}⟩
          [bytes "id=1' or", bytes " 1=1"] ↔
        (onRequestBody (· == bytes "1' or 1=1") .toList ⟨urlencoded, {}⟩
          [bytes "id=1' or", bytes " 1=1"].flatten).status = .stopIterationAndBuffer) ↔
      KeptHit (· == bytes "1' or 1=1") (({} : Config).part .body)
          [bytes "id=1' or", bytes " 1=1"] ∨
        (LostHit (· == bytes "1' or 1=1") (({} : Config).part .body)
            [bytes "id=1' or", bytes " 1=1"] ↔
          GainedHit (· == bytes "1' or 1=1") (({} : Config).part .body)
            [bytes "id=1' or", bytes " 1=1"]) :=
  chunks_iff _ _ _ ⟨urlencoded, {}⟩ _ rfl

theorem cut_value_passes :
    .stopIterationAndBuffer ∉ deliver (· == bytes "1' or 1=1") .toList ⟨urlencoded, {}⟩
        [bytes "id=1' or", bytes " 1=1"] ∧
      (onRequestBody (· == bytes "1' or 1=1") .toList ⟨urlencoded, {}⟩
        (bytes "id=1' or" ++ bytes " 1=1")).status = .stopIterationAndBuffer := by
  rw [mem_deliver_iff _ _ _ _ rfl, body_stops_iff _ rfl]
  decide

end WafWasm.BodyChunks
