import WafWasm.LockstepFolds
import WafWasm.Verdicts

set_option autoImplicit false

namespace WafWasm.LockstepVerdicts
open CheckedMemory RelatedRuns Common LibinjectionTokens LibinjectionKeywords LibinjectionParsers
open LibinjectionFold LibinjectionVerdict Fingerprints Verdicts Respelling RespelledTokens
open LockstepFolds

variable {S : Scan → Scan → Prop} {o : UInt8 → UInt8}

section Fingerprint

/-- The states after the fingerprint. -/
structure SameState (S : Scan → Scan → Prop) (o : UInt8 → UInt8) (st st' : SqliState) : Prop
    where
  fingerprint : st.fingerprint = st'.fingerprint
  tokenvec : Alike (seen o) st.sf.tokenvec st'.sf.tokenvec
  scan : S st.sf.scan st'.sf.scan

theorem phpComment_related (ho : Respects o (· == charTick)) {tokenvec tokenvec' : List Token}
    (h : Alike (seen o) tokenvec tokenvec') (n : ℕ) :
    Related (Alike (seen o)) (phpComment tokenvec n) (phpComment tokenvec' n) := by
  refine related_ite Iff.rfl (fun _ _ => ?_) fun _ _ => related_pure h
  refine (related_readAt h).bind fun t t' ht => ?_
  have hopen : (t.strOpen == charTick) = (t'.strOpen == charTick) :=
    ho _ _ (SameToken.strOpen ht)
  have hsame : isBackquoteComment t = isBackquoteComment t' := by
    rw [isBackquoteComment, isBackquoteComment, SameToken.type ht, hopen, SameToken.len ht,
      SameToken.strClose ht]
  refine related_ite (by rw [hsame]) (fun _ _ => ?_) fun _ _ => related_pure h
  exact related_writeAt h (SameToken.retype ht rfl)

theorem copyTypes_related {tokenvec tokenvec' : List Token} (h : Alike (seen o) tokenvec tokenvec')
    (tlen n : ℕ) (fingerprint : Bytes) :
    Related Eq (copyTypes tokenvec tlen n fingerprint)
      (copyTypes tokenvec' tlen n fingerprint) := by
  induction n generalizing fingerprint with
  | zero => exact related_pure rfl
  | succ n ih =>
    rw [copyTypes, copyTypes]
    refine (related_readAt h).bind fun t t' ht => ?_
    rw [SameToken.type ht]
    refine (related_self _).bind fun fp fp' heq => ?_
    subst heq
    exact ih fp

theorem evilState_related {sf sf' : Sfilter} (hs : SameSfilter S o sf sf')
    {tokenvec tokenvec' : List Token} (h : Alike (seen o) tokenvec tokenvec')
    (fingerprint : Bytes) :
    Related (SameState S o) (evilState { sf with tokenvec := tokenvec } fingerprint)
      (evilState { sf' with tokenvec := tokenvec' } fingerprint) := by
  refine (related_self _).bind fun fp fp' heq => ?_
  subst heq
  refine (related_self _).bind fun fp' fp'' heq => ?_
  subst heq
  refine (related_readAt h).bind fun first first' hfirst => ?_
  refine (related_copyTo (SameToken.val hfirst)
    (show Alike upper (List.replicate tokenSize 0) _ from rfl)).bind fun val val' hval => ?_
  refine (related_writeAt hval rfl).bind fun val val' hval => ?_
  refine (related_writeAt h (SameToken.retext hfirst hval typeEvil)).bind fun vec vec' hvec => ?_
  refine (related_readAt hvec).bind fun second second' hsecond => ?_
  exact (related_writeAt hvec (SameToken.retype hsecond rfl)).bind fun vec vec' hvec =>
    related_pure ⟨rfl, hvec, hs.scan⟩

variable {s s' : Bytes} {table : KeywordTable} {flags flags' : ℕ}

theorem spell_related (ho : Respects o (· == charTick)) {r r' : Sfilter × ℕ}
    (hr : SameFold S o r r') : Related (SameState S o) (spell r) (spell r') := by
  obtain ⟨sf, tlen⟩ := r
  obtain ⟨sf', tlen'⟩ := r'
  obtain ⟨hs, hlen⟩ := hr
  cases hlen
  refine (phpComment_related ho hs.tokenvec tlen).bind fun vec vec' hvec => ?_
  refine (copyTypes_related hvec tlen tlen _).bind fun fp fp' heq => ?_
  subst heq
  refine (related_self _).bind fun fp' fp'' heq => ?_
  subst heq
  refine (related_self _).bind fun pattern pattern' heq => ?_
  subst heq
  exact related_ite Iff.rfl (fun _ _ => evilState_related hs hvec fp') fun _ _ =>
    related_pure ⟨rfl, hvec, hs.scan⟩

theorem fingerprint_related (ho : Respects o (· == charTick))
    (h : Lockstep S o (resetInput s table flags) (resetInput s' table flags'))
    (hfirst : Related (SameSlots S o)
      (tokenizeAt (resetInput s table flags) resetState 0)
      (tokenizeAt (resetInput s' table flags') resetState 0)) :
    Related (SameState S o) (libinjectionSqliFingerprint s table flags)
      (libinjectionSqliFingerprint s' table flags') := by
  rw [fingerprint_eq, fingerprint_eq]
  exact (fold_related h hfirst).bind fun _ _ hr => spell_related ho hr

end Fingerprint

section Verdict
variable {s s' : Bytes} {table : KeywordTable} {st st' : SqliState} {pattern : Bytes}

/-- What is read of the texts behind a number and a comment, when no token has been dropped. -/
def SameNumber (s s' : Bytes) (st : SqliState) : Prop :=
  st.sf.scan.statsTokens ≤ 2 → ∀ t0 t0' t1 : Token, SameToken id t0 t0' →
    st.sf.tokenvec[1]? = some t1 → t1.type = typeComment →
      Related Eq (numberComment s t0) (numberComment s' t0')

theorem pairVerdict_related (hst : SameState S id st st')
    (hcounted : st.sf.scan.statsTokens = st'.sf.scan.statsTokens) (hnumber : SameNumber s s' st) :
    Related Eq (pairVerdict s st) (pairVerdict s' st') := by
  rw [pairVerdict, pairVerdict, hst.fingerprint, ← hcounted]
  refine (related_self _).bind fun second second' heq => ?_
  subst heq
  refine (related_readAt hst.tokenvec).bind fun t0 t0' h0 => ?_
  have hsecond : Related (fun t t' => seen id t = seen id t' ∧ st.sf.tokenvec[1]? = some t)
      (readAt st.sf.tokenvec 1) (readAt st'.sf.tokenvec 1) :=
    fun t t' ht ht' => ⟨related_readAt hst.tokenvec t t' ht ht', eq_of_readAt ht⟩
  refine hsecond.bind fun t1 t1' h => ?_
  obtain ⟨h1, hslot⟩ := h
  refine (related_readAt (SameToken.val h1)).bind fun opener opener' hopener => ?_
  have hhash := symbol_iff (show isSymbol hash = true by decide) hopener
  have hslash := symbol_iff (show isSymbol slash = true by decide) hopener
  have hdash := symbol_iff (show isSymbol dash = true by decide) hopener
  rw [← SameToken.type h0, ← SameToken.type h1, ← SameToken.len h1]
  refine related_ite Iff.rfl (fun _ _ => related_pure rfl) fun _ _ => ?_
  refine related_ite hhash (fun _ _ => related_pure rfl) fun _ _ => ?_
  refine related_ite (and_congr Iff.rfl (and_congr Iff.rfl (not_congr hslash)))
    (fun _ _ => related_pure rfl) fun _ _ => ?_
  refine related_ite (and_congr Iff.rfl (and_congr Iff.rfl hslash)) (fun _ _ => related_pure rfl)
    fun _ _ => ?_
  refine related_ite Iff.rfl (fun hcomment _ => ?_) fun _ _ => ?_
  · exact related_ite Iff.rfl (fun _ _ => related_pure rfl) fun hfew _ =>
      hnumber (Nat.le_of_not_lt hfew) t0 t0' t1 h0 hslot hcomment.2
  · exact related_ite (and_congr Iff.rfl hdash) (fun _ _ => related_pure rfl)
      fun _ _ => related_pure rfl

theorem tripleVerdict_related (hst : SameState S id st st')
    (hcounted : st.sf.scan.statsTokens = st'.sf.scan.statsTokens) (pattern : Bytes) :
    Related Eq (tripleVerdict st pattern) (tripleVerdict st' pattern) := by
  rw [tripleVerdict, tripleVerdict, hcounted]
  refine (related_readAt hst.tokenvec).bind fun t0 t0' h0 => ?_
  refine (related_readAt hst.tokenvec).bind fun t1 t1' h1 => ?_
  refine (related_readAt hst.tokenvec).bind fun t2 t2' h2 => ?_
  have hopen0 : t0.strOpen = t0'.strOpen := SameToken.strOpen h0
  have hopen2 : t2.strOpen = t2'.strOpen := SameToken.strOpen h2
  rw [hopen0, hopen2, SameToken.strClose h0, SameToken.strClose h2, SameToken.type h1,
    SameToken.len h1, cstrcasecmp_alike (SameToken.val h1)]
  exact related_self _

/-- The audit of a password is told by its spelling. -/
def auditsPassword (s : Bytes) : Bool := (findInfix (bytes "sp_password") s).isSome

theorem mentionsPassword_related (hpassword : auditsPassword s' = auditsPassword s)
    (pattern : Bytes) :
    Related Eq (mentionsPassword s pattern) (mentionsPassword s' pattern) := by
  have hsearch : ∀ text : Bytes, myMemmem text 0 text.length (bytes "sp_password") =
      .ok ((findInfix (bytes "sp_password") text).map (0 + ·)) := by
    intro text
    rw [myMemmem, require_ok (by decide), bind_ok, slice_ok (by omega), bind_ok, List.drop_zero,
      List.take_length]
    rfl
  refine related_ite Iff.rfl (fun _ _ => ?_) fun _ _ => related_pure rfl
  rw [hsearch, hsearch]
  refine related_pure ?_
  rw [Option.isSome_map, Option.isSome_map]
  exact hpassword.symm

theorem checkFingerprint_related {flags : ℕ}
    (hpattern : Fingerprinted (resetInput s table flags) st pattern) (hst : SameState S id st st')
    (hcounted : st.sf.scan.statsTokens = st'.sf.scan.statsTokens)
    (hpassword : auditsPassword s' = auditsPassword s)
    (hnumber : pattern.length = 2 → SameNumber s s' st) :
    Related Eq (libinjectionSqliCheckFingerprint s table st)
      (libinjectionSqliCheckFingerprint s' table st') := by
  have hspelt : cString st'.fingerprint = .ok pattern := by
    rw [← hst.fingerprint]
    exact fingerprinted_pattern hpattern
  rw [libinjectionSqliCheckFingerprint, libinjectionSqliCheckFingerprint,
    libinjectionSqliBlacklist, libinjectionSqliBlacklist, libinjectionSqliNotWhitelist,
    libinjectionSqliNotWhitelist, hst.fingerprint, hspelt]
  refine (related_self _).bind fun row row' heq => ?_
  subst heq
  refine related_ite Iff.rfl (fun _ _ => ?_) fun _ _ => related_pure rfl
  rw [bind_ok, bind_ok]
  refine (mentionsPassword_related hpassword pattern).bind fun password password' heq => ?_
  subst heq
  refine related_ite Iff.rfl (fun _ _ => related_pure rfl) fun _ _ => ?_
  refine related_ite Iff.rfl (fun hpair _ => ?_) fun _ _ => ?_
  · exact pairVerdict_related hst hcounted (hnumber hpair)
  · exact related_ite Iff.rfl (fun _ _ => tripleVerdict_related hst hcounted pattern)
      fun _ _ => related_pure rfl

end Verdict
end WafWasm.LockstepVerdicts
