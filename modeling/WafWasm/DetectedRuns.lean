import WafWasm.RespelledVerdicts
import WafWasm.Sentences
import WafWasm.Streams

set_option autoImplicit false

namespace WafWasm.DetectedRuns
open Common UnorderedContainers Sqli JsonValue Detection Contexts Segments HeaderCallback
open BodyCallback SharedSnapshots Streams LibinjectionKeywords LibinjectionVerdict
open LibinjectionTokens Fingerprints QuoteContexts Respelling LockstepVerdicts RespelledVerdicts
open PlainWords Sentences

section Pairs
variable {R : Bytes → Bytes → Prop} {detectSQLi : Bytes → Bool}

/-- The same key, and a value that may stand for the other. -/
def SamePair (R : Bytes → Bytes → Prop) (p p' : Bytes × Bytes) : Prop := p'.1 = p.1 ∧ R p.2 p'.2

/-- The detector does not tell such values apart. -/
def Blind (detectSQLi : Bytes → Bool) (R : Bytes → Bytes → Prop) : Prop :=
  ∀ val val', R val val' → detectSQLi val' = detectSQLi val

theorem samePair_keys {ps ps' : List (Bytes × Bytes)} (h : List.Forall₂ (SamePair R) ps ps') :
    ps'.map Prod.fst = ps.map Prod.fst := by
  induction h with
  | nil => rfl
  | cons head tail ih => rw [List.map_cons, List.map_cons, head.1, ih]

theorem hit_samePair (hR : Blind detectSQLi R) (sel : Selection) {p p' : Bytes × Bytes}
    (h : SamePair R p p') : Hit detectSQLi sel p' ↔ Hit detectSQLi sel p := by
  unfold Hit Flagged
  rw [h.1, hR _ _ h.2]

theorem samePairs_flip {ps ps' : List (Bytes × Bytes)} (h : List.Forall₂ (SamePair R) ps ps') :
    List.Forall₂ (SamePair (flip R)) ps' ps :=
  h.flip.imp fun _ _ hp => ⟨hp.1.symm, hp.2⟩

theorem firstHit_of_samePairs (hR : Blind detectSQLi R) (sel : Selection)
    {ps ps' : List (Bytes × Bytes)} (h : List.Forall₂ (SamePair R) ps ps')
    (hfound : FirstHit detectSQLi sel ps) : FirstHit detectSQLi sel ps' := by
  obtain ⟨front, p, back, rfl, hfirst, hhit⟩ := hfound
  have hfront := List.forall₂_take_append ps' front (p :: back) h.flip
  have hback := List.forall₂_drop_append ps' front (p :: back) h.flip
  obtain ⟨p', back', hp, -, hdrop⟩ := List.forall₂_cons_right_iff.mp hback
  refine ⟨ps'.take front.length, p', back', ?_, ?_, (hit_samePair hR sel hp).mpr hhit⟩
  · rw [← hdrop, List.take_append_drop]
  · rw [@samePair_keys R _ _ hfront.flip, hp.1]
    exact hfirst

theorem firstHit_samePairs (hR : Blind detectSQLi R) (sel : Selection)
    {ps ps' : List (Bytes × Bytes)} (h : List.Forall₂ (SamePair R) ps ps') :
    FirstHit detectSQLi sel ps' ↔ FirstHit detectSQLi sel ps := by
  have hflip : Blind detectSQLi (flip R) := fun val val' hval => (hR val' val hval).symm
  exact ⟨firstHit_of_samePairs hflip sel (samePairs_flip h), firstHit_of_samePairs hR sel h⟩

end Pairs

section Callbacks
variable {R : Bytes → Bytes → Prop} {detectSQLi : Bytes → Bool}

/-- The values of the headers and of the cookies may stand for each other. -/
structure SameRequest (R : Bytes → Bytes → Prop) (req req' : Request) : Prop where
  pairs : List.Forall₂ (SamePair R) req.pairs req'.pairs
  cookies : List.Forall₂ (SamePair R) (parameters true (req.header (bytes "Cookie")))
    (parameters true (req'.header (bytes "Cookie")))
  contentType : req'.header (bytes "content-type") = req.header (bytes "content-type")

def SameCallback (R : Bytes → Bytes → Prop) : Callback → Callback → Prop
  | .onRequestHeaders req, .onRequestHeaders req' => SameRequest R req req'
  | .onRequestBody body, .onRequestBody body' =>
    List.Forall₂ (SamePair R) (parameters false body) (parameters false body')
  | _, _ => False

theorem callback_same (hR : Blind detectSQLi R) {req req' : Request} (h : SameRequest R req req')
    (order order' : IterationOrder) (ctx : ExampleContext) :
    onRequestHeaders detectSQLi order' ctx req' = onRequestHeaders detectSQLi order ctx req := by
  have hheader : HeaderStage detectSQLi ctx.config req' ↔
      HeaderStage detectSQLi ctx.config req := by
    rw [headerStage_iff, headerStage_iff, firstHit_samePairs hR _ h.pairs]
  have hcookie : CookieStage detectSQLi ctx.config req' ↔
      CookieStage detectSQLi ctx.config req := by
    rw [cookieStage_iff, cookieStage_iff, firstHit_samePairs hR _ h.cookies]
  have hpath : PathStage detectSQLi ctx.config req' ↔
      PathStage detectSQLi ctx.config req := by
    rw [pathStage_iff, pathStage_iff, firstHit_samePairs hR _ h.cookies]
  rcases @callback_cases detectSQLi order ctx req with
    ⟨hs, he⟩ | ⟨hs, hc, he⟩ | ⟨hs, hc, hp, he⟩ | ⟨hpass, he⟩
  · rw [he, callback_of_header order' ctx req' (hheader.mpr hs)]
  · rw [he, callback_of_cookie order' ctx req' (mt hheader.mp hs) (hcookie.mpr hc)]
  · rw [he, callback_of_path order' ctx req' (mt hheader.mp hs) (mt hcookie.mp hc) (hpath.mpr hp)]
  · have hpass' : ¬Stops detectSQLi ctx.config req' := by
      rw [Stops, hheader, hcookie, hpath]
      exact hpass
    rw [he, callback_of_pass order' ctx req' hpass', h.contentType]

theorem body_same (hR : Blind detectSQLi R) {body body' : Bytes}
    (h : List.Forall₂ (SamePair R) (parameters false body) (parameters false body'))
    (order order' : IterationOrder) (ctx : ExampleContext) :
    onRequestBody detectSQLi order' ctx body' = onRequestBody detectSQLi order ctx body := by
  have hstage : BodyStage detectSQLi ctx.config body' ↔ BodyStage detectSQLi ctx.config body := by
    rw [bodyStage_iff, bodyStage_iff, firstHit_samePairs hR _ h]
  rcases body_cases detectSQLi order ctx body with ⟨htype, hbody, he⟩ | ⟨hnot, he⟩
  · rw [he, body_of_hit order' htype (hstage.mpr hbody)]
  · rcases body_cases detectSQLi order' ctx body' with ⟨htype, hbody, -⟩ | ⟨-, he'⟩
    · exact absurd ⟨htype, hstage.mp hbody⟩ hnot
    · rw [he, he']

theorem serve_same (hR : Blind detectSQLi R) {callback callback' : Callback}
    (h : SameCallback R callback callback') (order order' : IterationOrder) (ctx : ExampleContext) :
    serve detectSQLi ctx order' callback' = serve detectSQLi ctx order callback := by
  cases callback with
  | onRequestHeaders req =>
    cases callback' with
    | onRequestHeaders req' =>
      simp only [serve]
      rw [callback_same hR h order order' ctx]
    | onRequestBody body' => exact h.elim
  | onRequestBody body =>
    cases callback' with
    | onRequestHeaders req' => exact h.elim
    | onRequestBody body' =>
      simp only [serve]
      rw [body_same hR h order order' ctx]

end Callbacks

section Rewriting

/-- A text, the text in another case, and a sentence with other white space. -/
inductive Rewritten : Bytes → Bytes → Prop
  | same (s : Bytes) : Rewritten s s
  | recased {s s' : Bytes} (h : Respelled 0 s s')
      (hpassword : auditsPassword s' = auditsPassword s) : Rewritten s s'
  | respaced {s s' : Bytes} {words words' : List Bytes} (h : Sentence words s)
      (h' : Sentence words' s') (hwords : words ≠ [])
      (hsame : words.map (List.map upper) = words'.map (List.map upper))
      (hpassword : auditsPassword s' = auditsPassword s) : Rewritten s s'

theorem blind_rewritten (table : KeywordTable) :
    Blind (LibinjectionVerdict.detectSQLi table) Rewritten := by
  intro val val' h
  rw [LibinjectionVerdict.detectSQLi, LibinjectionVerdict.detectSQLi]
  cases h with
  | same => rfl
  | recased h hpassword => rw [isSqli_ignores_case table h hpassword]
  | respaced h h' hwords hsame hpassword =>
    rw [isSqli_ignores_spacing table h h' hwords hsame hpassword]

def RewrittenCall (call call' : IterationOrder × Callback) : Prop :=
  SameCallback Rewritten call.2 call'.2

/-- Whatever the streams and the root context do: the writing of the values changes no answer. -/
theorem run_ignores_writing (parse : Bytes → Option Json) (table : KeywordTable)
    {events events' : List WafEvent} (h : List.Forall₂ (Event.Alike RewrittenCall) events events')
    (s : State ℕ ExampleRootContext ExampleContext) :
    (waf parse (LibinjectionVerdict.detectSQLi table)).run s events' =
      (waf parse (LibinjectionVerdict.detectSQLi table)).run s events := by
  refine System.run_alike (fun ctx call call' hcall => ?_) h s
  exact serve_same (blind_rewritten table) hcall call.1 call'.1 ctx

noncomputable def formRun (body : Bytes) : List WafEvent :=
  [.update (.toList, excludeA), .start 1, .call 1 (.toList, .onRequestHeaders formRequest),
    .call 1 (.toList, .onRequestBody body)]

theorem run_ignores_writing_union :
    (waf readExcludeA (LibinjectionVerdict.detectSQLi sampleTable)).run (State.initial {})
        (formRun (bytes "b=1+UNION+select+a")) =
      (waf readExcludeA (LibinjectionVerdict.detectSQLi sampleTable)).run (State.initial {})
        (formRun (bytes "b=1+union+select+a")) := by
  have hvalue : Rewritten (bytes "1 union select a") (bytes "1 UNION select a") :=
    .recased (respelled_of_plain (by decide) (by decide) (by decide) (by decide)) (by decide)
  have hheaders : RewrittenCall (.toList, .onRequestHeaders formRequest)
      (.toList, .onRequestHeaders formRequest) :=
    ⟨.cons ⟨rfl, .same _⟩ .nil, .nil, rfl⟩
  have hbody : RewrittenCall (.toList, .onRequestBody (bytes "b=1+union+select+a"))
      (.toList, .onRequestBody (bytes "b=1+UNION+select+a")) :=
    .cons ⟨rfl, hvalue⟩ .nil
  exact run_ignores_writing readExcludeA sampleTable (.cons (.update _)
    (.cons (.start 1) (.cons (.call 1 hheaders) (.cons (.call 1 hbody) .nil)))) _

end Rewriting

section Texts
variable {parse : Bytes → Option Json} {detectSQLi : Bytes → Bool}

/-- The keys and values that a callback may inspect. -/
def texts : Callback → List Bytes
  | .onRequestHeaders req =>
    (req.pairs ++ parameters true (req.header (bytes "Cookie"))).flatMap fun p => [p.1, p.2]
  | .onRequestBody body => (parameters false body).flatMap fun p => [p.1, p.2]

def Passes (answer : Answer) : Prop :=
  answer = .headers .continue none ∨ answer = .body .continue none

theorem flagged_text {ps : List (Bytes × Bytes)} {sel : Selection}
    (h : FirstHit detectSQLi sel ps) :
    ∃ text ∈ ps.flatMap fun p => [p.1, p.2], detectSQLi text = true := by
  obtain ⟨p, hp, -, hkey | hval⟩ := exists_hit_of_first detectSQLi h
  · exact ⟨p.1, List.mem_flatMap.mpr ⟨p, hp, .head _⟩, hkey⟩
  · exact ⟨p.2, List.mem_flatMap.mpr ⟨p, hp, .tail _ (.head _)⟩, hval⟩

theorem serve_refused (ctx : ExampleContext) (order : IterationOrder) (callback : Callback)
    (h : ¬Passes (serve detectSQLi ctx order callback).2) :
    ∃ text ∈ texts callback, detectSQLi text = true := by
  cases callback with
  | onRequestHeaders req =>
    have hcookies : ∀ sel, FirstHit detectSQLi sel (parameters true (req.header (bytes "Cookie"))) →
        ∃ text ∈ texts (.onRequestHeaders req), detectSQLi text = true := by
      intro sel hhit
      obtain ⟨text, htext, hfound⟩ := flagged_text hhit
      rw [texts, List.flatMap_append]
      exact ⟨text, List.mem_append_right _ htext, hfound⟩
    rcases @callback_cases detectSQLi order ctx req with
      ⟨hs, -⟩ | ⟨-, hs, -⟩ | ⟨-, -, hs, -⟩ | ⟨-, he⟩
    · obtain ⟨text, htext, hfound⟩ := flagged_text ((headerStage_iff _ _ _).mp hs)
      rw [texts, List.flatMap_append]
      exact ⟨text, List.mem_append_left _ htext, hfound⟩
    · exact hcookies _ ((cookieStage_iff _ _ _).mp hs)
    · exact hcookies _ ((pathStage_iff _ _ _).mp hs)
    · refine absurd (.inl ?_) h
      rw [serve, he]
  | onRequestBody body =>
    rcases body_cases detectSQLi order ctx body with ⟨-, hs, -⟩ | ⟨-, he⟩
    · exact flagged_text ((bodyStage_iff _ _ _).mp hs)
    · refine absurd (.inr ?_) h
      rw [serve, he]

theorem run_refused {s last : State ℕ ExampleRootContext ExampleContext} {events : List WafEvent}
    {answers : List (ℕ × Answer)} (h : (waf parse detectSQLi).run s events = some (last, answers)) :
    List.Forall₂ (fun call answer => answer.1 = call.1 ∧
      (¬Passes answer.2 → ∃ text ∈ texts call.2.2, detectSQLi text = true))
      (calls events) answers := by
  refine (System.run_answers h).imp fun call answer hanswer => ?_
  obtain ⟨hid, ctx, hserved⟩ := hanswer
  refine ⟨hid, fun hrefused => serve_refused ctx call.2.1 call.2.2 ?_⟩
  rw [hserved] at hrefused
  exact hrefused

end Texts

section Detector
variable {parse : Bytes → Option Json} {table : KeywordTable}
  {s last : State ℕ ExampleRootContext ExampleContext} {events : List WafEvent}
  {answers : List (ℕ × Answer)}

theorem isSqli_of_detected {text : Bytes} (h : LibinjectionVerdict.detectSQLi table text = true) :
    libinjectionIsSqli text table = .ok true := by
  obtain ⟨found, hfound, -⟩ := Verdicts.isSqli_holds text table
  rw [LibinjectionVerdict.detectSQLi, hfound] at h
  obtain rfl : found = true := h
  exact hfound

/-- The data has a fingerprint of the table in one of the contexts. -/
def HasRow (table : KeywordTable) (text : Bytes) : Prop :=
  ∃ flags ∈ contexts, ∃ st pattern, libinjectionSqliFingerprint text table flags = .ok st ∧
    st.fingerprint = spelt pattern ∧ ∃ entry ∈ table.entries,
      entry.word = 0x30 :: pattern.map upper ∧ entry.type = typeFingerprint

theorem hasRow_of_detected {text : Bytes}
    (h : LibinjectionVerdict.detectSQLi table text = true) : HasRow table text := by
  obtain ⟨flags, hflags, hfound⟩ := flaggedIn_of_isSqli (isSqli_of_detected h)
  obtain ⟨st, pattern, hst, hpattern, hrow⟩ := fingerprint_of_flaggedIn hfound
  exact ⟨flags, hflags, st, pattern, hst, hpattern.fingerprint, entry_of_blacklisted hrow⟩

/-- The answers of a run go to its calls one by one; one that is not to go on goes to a call with
a text that has a fingerprint of the table. -/
theorem refused_has_row
    (h : (waf parse (LibinjectionVerdict.detectSQLi table)).run s events = some (last, answers)) :
    List.Forall₂ (fun call answer => answer.1 = call.1 ∧
      (¬Passes answer.2 → ∃ text ∈ texts call.2.2, HasRow table text)) (calls events) answers := by
  refine (run_refused h).imp fun call answer hanswer => ⟨hanswer.1, fun hrefused => ?_⟩
  obtain ⟨text, htext, hfound⟩ := hanswer.2 hrefused
  exact ⟨text, htext, hasRow_of_detected hfound⟩

def formStreams : State ℕ ExampleRootContext ExampleContext := ⟨{}, fun _ => some ⟨urlencoded, {}⟩⟩

noncomputable def bodyCall (body : Bytes) : WafEvent := .call 1 (.toList, .onRequestBody body)

theorem refused_has_row_union :
    ∃ text ∈ texts (.onRequestBody (bytes "b=1+union+select+a")), HasRow sampleTable text := by
  have hstage : BodyStage (LibinjectionVerdict.detectSQLi sampleTable) {}
      (bytes "b=1+union+select+a") := by decide +kernel
  have hserve := @body_of_hit (LibinjectionVerdict.detectSQLi sampleTable) .toList
    ⟨urlencoded, {}⟩ (bytes "b=1+union+select+a") rfl hstage
  have hrefused : ¬Passes (serve (LibinjectionVerdict.detectSQLi sampleTable) ⟨urlencoded, {}⟩
      .toList (.onRequestBody (bytes "b=1+union+select+a"))).2 := by
    rw [serve, hserve]
    rintro (h | h)
    · cases h
    · cases h
  have hanswers := @refused_has_row readExcludeA sampleTable formStreams _
    [bodyCall (bytes "b=1+union+select+a"), bodyCall (bytes "b=a")] _ rfl
  exact (List.forall₂_cons.mp hanswers).1.2 hrefused

/-- Whatever else goes on in the run, a call all of whose keys and values are plain words or empty
is not refused. -/
theorem plain_never_refused (hrows : LongFingerprints table)
    (h : (waf parse (LibinjectionVerdict.detectSQLi table)).run s events = some (last, answers)) :
    List.Forall₂ (fun call answer => answer.1 = call.1 ∧
      ((∀ text ∈ texts call.2.2, text = [] ∨ PlainWord text) → Passes answer.2))
      (calls events) answers := by
  refine (run_refused h).imp fun call answer hanswer => ⟨hanswer.1, fun hplain => ?_⟩
  by_contra hrefused
  obtain ⟨text, htext, hfound⟩ := hanswer.2 hrefused
  have hdetected := isSqli_of_detected hfound
  rcases hplain text htext with rfl | hword
  · cases hdetected
  · rw [isSqli_plainWord hrows hword] at hdetected
    cases hdetected

theorem plain_never_refused_select : Passes (serve (LibinjectionVerdict.detectSQLi sampleTable)
    ⟨urlencoded, {}⟩ .toList (.onRequestBody (bytes "a=select"))).2 := by
  have hplain : ∀ text ∈ texts (.onRequestBody (bytes "a=select")), text = [] ∨ PlainWord text := by
    intro text htext
    have hword : text = bytes "a" ∨ text = bytes "select" := by
      rcases List.mem_cons.mp htext with hkey | hval
      · exact .inl hkey
      · exact .inr (List.mem_singleton.mp hval)
    rcases hword with rfl | rfl
    · exact .inr ⟨⟨0x61, rfl, by decide⟩, List.all_eq_true.mp (by decide)⟩
    · exact .inr ⟨⟨0x73, rfl, by decide⟩, List.all_eq_true.mp (by decide)⟩
  have hrows : LongFingerprints sampleTable := by
    unfold LongFingerprints
    decide
  have hanswers := @plain_never_refused readExcludeA sampleTable formStreams _
    [.call 2 (.toList, .onRequestBody (bytes "b=1+union+select+a")), bodyCall (bytes "a=select")] _
    hrows rfl
  exact (List.forall₂_cons.mp (List.forall₂_cons.mp hanswers).2).1.2 hplain

end Detector
end WafWasm.DetectedRuns
