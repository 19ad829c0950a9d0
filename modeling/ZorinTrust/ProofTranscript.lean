import ZorinTrust.ProofGate

/-!
# What an owner proof says

Three questions about the signed text: whether the times in it are the times that were checked,
whether the bytes the user was shown are the bytes it encodes, and whether it determines the request.
Each holds for exactly the requests described here.
-/

namespace ZorinTrust

open CText Numeral

/-! ### The signed time window -/

/-- The values of a 64-bit variable. -/
def FitsInt64 (x : ℤ) : Prop := -2 ^ 63 ≤ x ∧ x < 2 ^ 63

instance (x : ℤ) : Decidable (FitsInt64 x) := inferInstanceAs (Decidable (_ ∧ _))

/-- Read as numerals, the two texts name a window of at most 120 seconds that opens within 30 seconds
of `now`. -/
def SignedWindow (issued expires : Bytes) (now : ℤ) : Prop :=
  isDecimal issued = true ∧ isDecimal expires = true ∧
    0 < decimalVal expires - decimalVal issued ∧ decimalVal expires - decimalVal issued ≤ 120 ∧
    |decimalVal issued - now| ≤ 30

/-- Numerals the 64-bit parser and the 64-bit difference are exact on. -/
def ExactTimes (issued expires : Bytes) : Prop :=
  isDecimal issued = true ∧ isDecimal expires = true ∧ FitsInt64 (decimalVal issued) ∧
    FitsInt64 (decimalVal expires) ∧ FitsInt64 (decimalVal expires - decimalVal issued)

/-- On a numeral the parser computes its value modulo `2 ^ 64`. -/
theorem trustParseI64_of_isDecimal {s : Bytes} (h : isDecimal s = true) :
    trustParseI64 s = wrap 64 (decimalVal s) := by
  have hread (ds : Bytes) (hd : ds.all isDigit = true) :
      readDigits 64 0 ds = wrap 64 (digitsVal 0 ds) := by
    have := readDigits_eq (w := 64) ds 0
    rw [takeWhile_isDigit_of_all hd] at this
    simpa [wrap] using this
  fun_cases trustParseI64 s with
  | case1 ds =>
    have hd : ds.all isDigit = true := (Bool.and_eq_true _ _ ▸ h).2
    show wrap 64 (-(readDigits 64 0 ds)) = wrap 64 (-(digitsVal 0 ds : ℤ))
    rw [hread ds hd, wrap_neg]
  | case2 s hneg =>
    rw [isDecimal.eq_2 s hneg, Bool.and_eq_true] at h
    rw [decimalVal.eq_2 s hneg]
    exact hread s h.2

theorem trustParseI64_of_fits {s : Bytes} (h : isDecimal s = true) (hf : FitsInt64 (decimalVal s)) :
    trustParseI64 s = decimalVal s := by
  rw [trustParseI64_of_isDecimal h]
  exact (wrap_eq_self_iff (by norm_num)).mpr hf

/-- A value the parser wraps leaves the 64-bit range by less than it moves. -/
theorem fits_of_wrap_near {x y : ℤ} (h : |wrap 64 x - x| ≤ y) (hy : y < 2 ^ 64) : FitsInt64 x := by
  obtain ⟨k, hk⟩ := exists_wrap_eq (w := 64) x
  have hmem := wrap_mem (w := 64) (by norm_num) x
  rw [abs_le] at h
  have hk0 : k = 0 := by
    norm_num at hk hy
    omega
  rw [hk0, zero_mul, add_zero] at hk
  rw [hk] at hmem
  exact hmem

/-- Times the check lets through are a window of the signed numerals exactly when nothing wraps. -/
theorem signedWindow_iff {issued expires : Bytes} {now : ℤ} (hn : -2 ^ 63 ≤ now ∧ now < 2 ^ 63)
    (h : ¬ ttlRefuses (trustParseI64 issued) (trustParseI64 expires) now) :
    SignedWindow issued expires now ↔ ExactTimes issued expires := by
  obtain ⟨hlt, hnear, hspan⟩ := ttl_window (trustParseI64_mem _) (trustParseI64_mem _) hn h
  constructor
  · rintro ⟨hi, hx, hpos, hle, habs⟩
    rw [trustParseI64_of_isDecimal hi] at hlt hnear
    rw [trustParseI64_of_isDecimal hx] at hlt
    have hfi : FitsInt64 (decimalVal issued) := by
      refine fits_of_wrap_near (y := 60) ?_ (by norm_num)
      rw [abs_le] at hnear habs ⊢
      omega
    rw [(wrap_eq_self_iff (w := 64) (by norm_num)).mpr hfi] at hlt
    -- `expires` follows a 64-bit value by at most 120, so a wrap would put it before `issued`
    have hfx : FitsInt64 (decimalVal expires) := by
      obtain ⟨k, hk⟩ := exists_wrap_eq (w := 64) (decimalVal expires)
      have hmem := wrap_mem (w := 64) (by norm_num) (decimalVal expires)
      unfold FitsInt64 at hfi ⊢
      norm_num at hk hmem hfi ⊢
      omega
    refine ⟨hi, hx, hfi, hfx, ?_⟩
    unfold FitsInt64
    norm_num
    omega
  · rintro ⟨hi, hx, hfi, hfx, hfd⟩
    rw [trustParseI64_of_fits hi hfi] at hlt hspan hnear
    rw [trustParseI64_of_fits hx hfx] at hlt hspan
    exact ⟨hi, hx, by omega, hspan hfd.2, hnear⟩

/-- **The signed window is the checked one** exactly for times that are numerals without wrap-around. -/
theorem ownerProof_window_iff (frame : CStr 4096) (e : ProofEnv) (s : Service) (now : Int64)
    (issued expires : Bytes) (hok : SendsOk s (trustHandleProofRequest frame e s).2)
    (hclock : e.clock = some now) (hissued : trustFrameField frame.val "ISSUED" 64 = some issued)
    (hexpires : trustFrameField frame.val "EXPIRES" 64 = some expires) :
    (∃ head, ∀ m, .signed m ∈ since s (trustHandleProofRequest frame e s).2 ↔
      m = head ++ bar :: issued ++ bar :: expires) ∧
    (SignedWindow issued expires now.toInt ↔ ExactTimes issued expires) := by
  obtain ⟨r, s₁, hscreen, hwait, hplain, hrun⟩ := trustHandleProofRequest_ok hok
  obtain ⟨htexts, -, -, ⟨now', hclock', httl⟩, -⟩ := proofScreen_eq_ok hscreen
  obtain ⟨-, -, -, hi, hx, -⟩ := proofTexts_eq_some htexts
  obtain ⟨-, -, hi', -⟩ := fieldBuf_eq_some frame.nulFree hi
  obtain ⟨-, -, hx', -⟩ := fieldBuf_eq_some frame.nulFree hx
  obtain rfl : r.issueds.val = issued := Option.some.inj (hi'.symm.trans hissued)
  obtain rfl : r.expiress.val = expires := Option.some.inj (hx'.symm.trans hexpires)
  obtain rfl : now' = now := Option.some.inj (hclock'.symm.trans hclock)
  obtain ⟨hsigned, -⟩ := trustHandleProofRequest_events hwait hplain (congrArg Prod.snd hrun)
  refine ⟨⟨[bar].intercalate [lit "ZTRUST/2", lit "OWNER_PROOF", s.g.gTrustHostFp.val,
    s.g.gTrustPhoneFp.val, r.ah.val, r.rh.val, r.nonce.val], fun m => ?_⟩,
    signedWindow_iff ⟨now'.le_toInt, now'.toInt_lt⟩ httl⟩
  rw [hsigned m, proofMessage_eq, ownerTranscript]
  simp only [List.intercalate_cons_cons, List.intercalate_singleton, List.append_assoc,
    List.cons_append, List.nil_append]

theorem ownerProof_window_plain :
    SignedWindow (lit "100") (lit "110") 100 ↔ ExactTimes (lit "100") (lit "110") :=
  (ownerProof_window_iff (plainFrame (lit "n") (lit "100") (lit "110")) plainEnv {} 100 (lit "100")
    (lit "110") ⟨okWire [1, 2, 3], by decide +kernel, by decide +kernel⟩ rfl (by decide +kernel)
    (by decide +kernel)).2

/-- **A time with trailing bytes is signed**: ISSUED `100x` is checked as 100. -/
theorem ownerProof_window_trailing :
    ¬ ∀ (frame : CStr 4096) (e : ProofEnv) (s : Service) (now : Int64) (issued expires : Bytes),
      SendsOk s (trustHandleProofRequest frame e s).2 → e.clock = some now →
        trustFrameField frame.val "ISSUED" 64 = some issued →
        trustFrameField frame.val "EXPIRES" 64 = some expires →
        SignedWindow issued expires now.toInt := by
  intro h
  have hbad := h (plainFrame (lit "n") (lit "100x") (lit "110")) plainEnv {} 100 (lit "100x")
    (lit "110") ⟨okWire [1, 2, 3], by decide +kernel, by decide +kernel⟩ rfl (by decide +kernel)
    (by decide +kernel)
  exact absurd hbad.1 (by decide)

/-! ### Shown and signed -/

/-- The bytes a hex field of a state frame shows. -/
def shownField (frame : Bytes) (key : String) (cap : ℕ) : Option Bytes :=
  (trustFrameField frame key 1200).bind (trustHexDecode · cap)

/-- A state frame shows this action and this resource. -/
def Shows (frame action resource : Bytes) : Prop :=
  shownField frame "AUTH_ACTION_HEX" 255 = some action ∧
    shownField frame "AUTH_RESOURCE_HEX" 511 = some resource

/-- While a request is pending its frame shows the action and resource up to their first NUL. -/
theorem shows_proofPend {r : ProofRequest} {s : Service} {paired : Bool} {action resource : Bytes}
    (ha : r.ab.length < 256) (hb : r.rb.length < 512) :
    Shows (stateFrame (proofPend r s).g paired) action resource ↔
      cstr r.ab = action ∧ cstr r.rb = resource := by
  have hcut : ∀ {cap : ℕ} {b : Bytes}, b.length < cap → cut cap (cstr b) = cstr b :=
    fun hlen => cut_of_lt ((cstr_isPrefix _).length_le.trans_lt hlen)
  have hact : (proofPend r s).g.gAuthorityAction.val = cstr r.ab := hcut ha
  have hres : (proofPend r s).g.gAuthorityResource.val = cstr r.rb := hcut hb
  rw [Shows, shownField, shownField, actionField_stateFrame, resourceField_stateFrame, hact, hres,
    Option.some.injEq, Option.some.injEq]

/-- **The user is shown the signed bytes** exactly when neither decoded text holds a NUL. -/
theorem ownerProof_shown_iff (frame : CStr 4096) (e : ProofEnv) (s : Service)
    (ah rh action resource : Bytes) (hok : SendsOk s (trustHandleProofRequest frame e s).2)
    (hmode : frameField frame.val "MODE" = some (lit "EXPLICIT"))
    (hah : frameField frame.val "ACTION_HEX" = some ah)
    (hrh : frameField frame.val "RESOURCE_HEX" = some rh)
    (haction : trustHexDecode ah 255 = some action)
    (hresource : trustHexDecode rh 511 = some resource) :
    let history := since s (trustHandleProofRequest frame e s).2
    (∃ head tail, ∀ m, .signed m ∈ history ↔ m = head ++ bar :: ah ++ bar :: rh ++ bar :: tail) ∧
    (∃ g paired, .published g paired ∈ history ∧ g.gAuthorityPending = true) ∧
    ((∀ g paired, .published g paired ∈ history → g.gAuthorityPending = true →
        Shows (stateFrame g paired) action resource) ↔ 0 ∉ action ∧ 0 ∉ resource) := by
  intro history
  obtain ⟨r, s₁, hscreen, hwait, hplain, hrun⟩ := trustHandleProofRequest_ok hok
  obtain ⟨-, hdec, -⟩ := proofScreen_eq_ok hscreen
  obtain ⟨-, hab, hrb, -⟩ := proofDecode_eq_some hdec
  obtain ⟨ha, hb, -⟩ := proofScreen_fields frame.nulFree hscreen
  obtain rfl : r.ah.val = ah := Option.some.inj (ha.symm.trans hah)
  obtain rfl : r.rh.val = rh := Option.some.inj (hb.symm.trans hrh)
  obtain rfl : r.ab = action := Option.some.inj (hab.symm.trans haction)
  obtain rfl : r.rb = resource := Option.some.inj (hrb.symm.trans hresource)
  have hx := (proofScreen_explicit frame.nulFree hscreen).mpr hmode
  obtain ⟨hsigned, hpub⟩ := trustHandleProofRequest_events hwait hplain (congrArg Prod.snd hrun)
  obtain ⟨⟨paired, hpend⟩, honly⟩ := hpub hx
  have ha255 := (trustHexDecode_length hab).2
  have hb511 := (trustHexDecode_length hrb).2
  have hshown (paired : Bool) : Shows (stateFrame (proofPend r s).g paired) r.ab r.rb ↔
      0 ∉ r.ab ∧ 0 ∉ r.rb := by
    rw [shows_proofPend (by omega) (by omega), cstr_eq_self_iff, cstr_eq_self_iff]
  refine ⟨⟨[bar].intercalate [lit "ZTRUST/2", lit "OWNER_PROOF", s.g.gTrustHostFp.val,
    s.g.gTrustPhoneFp.val], [bar].intercalate [r.nonce.val, r.issueds.val, r.expiress.val],
    fun m => ?_⟩, ⟨_, paired, hpend, rfl⟩, fun h => ?_, fun h g p hg hpending => ?_⟩
  · rw [hsigned m, proofMessage_eq, ownerTranscript]
    simp only [List.intercalate_cons_cons, List.intercalate_singleton, List.append_assoc,
      List.cons_append, List.nil_append]
  · exact (hshown paired).mp (h _ paired hpend rfl)
  · rw [honly g p hg hpending]
    exact (hshown p).mpr h

theorem ownerProof_shown_explicit :
    ∃ g paired, .published g paired ∈ since {} (trustHandleProofRequest
        (explicitFrame (lit "6f776e65722e78") (lit "72")) explicitEnv {}).2 ∧
      g.gAuthorityPending = true ∧ Shows (stateFrame g paired) (lit "owner.x") (lit "r") := by
  obtain ⟨-, ⟨g, paired, hg, hpending⟩, hshown⟩ :=
    ownerProof_shown_iff (explicitFrame (lit "6f776e65722e78") (lit "72")) explicitEnv {}
      (lit "6f776e65722e78") (lit "72") (lit "owner.x") (lit "r")
      ⟨okWire [1, 2, 3], by decide +kernel, by decide +kernel⟩ (by decide +kernel) (by decide +kernel)
      (by decide +kernel) (by decide +kernel) (by decide +kernel)
  exact ⟨g, paired, hg, hpending, hshown.mpr (by decide) g paired hg hpending⟩

/-- **A NUL hides the rest of the action**: `owner.x\0y` is signed while the screen shows `owner.x`. -/
theorem ownerProof_shown_nul :
    ¬ ∀ (frame : CStr 4096) (e : ProofEnv) (s : Service) (ah rh action resource : Bytes),
      SendsOk s (trustHandleProofRequest frame e s).2 →
        frameField frame.val "MODE" = some (lit "EXPLICIT") →
        frameField frame.val "ACTION_HEX" = some ah → frameField frame.val "RESOURCE_HEX" = some rh →
        trustHexDecode ah 255 = some action → trustHexDecode rh 511 = some resource →
        ∀ g paired, .published g paired ∈ since s (trustHandleProofRequest frame e s).2 →
          g.gAuthorityPending = true → Shows (stateFrame g paired) action resource := by
  intro h
  have hbad := h (explicitFrame (lit "6f776e65722e780079") (lit "72")) explicitEnv {}
    (lit "6f776e65722e780079") (lit "72") (lit "owner.x" ++ [0, 121]) (lit "r")
    ⟨okWire [1, 2, 3], by decide +kernel, by decide +kernel⟩ (by decide +kernel) (by decide +kernel)
    (by decide +kernel) (by decide +kernel) (by decide +kernel)
    { gAuthorityPending := true
      gAuthorityRequestId := .put 96 (lit "r1")
      gAuthorityAction := .put 256 (lit "owner.x")
      gAuthorityResource := .put 512 (lit "r")
      gAuthorityPrompt := .put 384 (lit "owner.x") } false (by decide +kernel) rfl
  rw [Shows, shownField, actionField_stateFrame] at hbad
  exact absurd hbad.1 (by decide)

/-! ### One transcript, one request -/

/-- The fields that are joined with bars without being hex, in order, with their buffers; the bars in
the last one cannot be confused with a separator. -/
def rawFields : List (String × ℕ) := [("NONCE", 128), ("ISSUED", 64)]

/-- Equally many bars reach the signature in each raw field before the last. -/
def SameBars (f₁ f₂ : Bytes) : Prop :=
  ∀ k ∈ rawFields, (trustFrameField f₁ k.1 k.2).map (List.count bar) =
    (trustFrameField f₂ k.1 k.2).map (List.count bar)

/-- What the buffers cut off agrees. -/
def SameTails (f₁ f₂ : Bytes) : Prop :=
  ∀ k ∈ rawFields ++ [("EXPIRES", 64)], (frameField f₁ k.1).map (List.drop (k.2 - 1)) =
    (frameField f₂ k.1).map (List.drop (k.2 - 1))

/-- The frames agree on every field of the transcript. -/
def SameFields (f₁ f₂ : Bytes) : Prop :=
  ∀ key ∈ ["ACTION_HEX", "RESOURCE_HEX", "NONCE", "ISSUED", "EXPIRES"],
    frameField f₁ key = frameField f₂ key

theorem bar_notMem_of_hexDecode {v x : Bytes} {cap : ℕ} (h : trustHexDecode v cap = some x) :
    bar ∉ v := fun hc => by
  have := mem_trustHexDecode h bar hc
  simp [show trustHexval bar = none from rfl] at this

/-- **Reading a transcript**: hex and fingerprints are determined; the rest is when the bars are. -/
theorem ownerTranscript_inj {h p a r n i x a' r' n' i' x' : Bytes} (ha : bar ∉ a) (ha' : bar ∉ a')
    (hr : bar ∉ r) (hr' : bar ∉ r') (hn : n.count bar = n'.count bar) (hi : i.count bar = i'.count bar)
    (heq : ownerTranscript h p a r n i x = ownerTranscript h p a' r' n' i' x') :
    a = a' ∧ r = r' ∧ n = n' ∧ i = i' ∧ x = x' := by
  simp only [ownerTranscript, List.intercalate_cons_cons, List.intercalate_singleton,
    List.append_assoc, List.append_cancel_left_eq, List.singleton_append, List.cons.injEq,
    true_and] at heq
  obtain ⟨h₁, heq₁⟩ := append_sep_inj_of_notMem heq ha ha'
  obtain ⟨h₂, heq₂⟩ := append_sep_inj_of_notMem heq₁ hr hr'
  obtain ⟨h₃, heq₃⟩ := append_sep_inj heq₂ hn
  obtain ⟨h₄, h₅⟩ := append_sep_inj heq₃ hi
  exact ⟨h₁, h₂, h₃, h₄, h₅⟩

/-- **The transcript determines the request** exactly when the raw fields agree on their bars and on
what the buffers cut off. -/
theorem ownerProof_transcript_iff (f₁ f₂ : CStr 4096) (e₁ e₂ : ProofEnv) (s₁ s₂ : Service) (m : Bytes)
    (h₁ : (trustHandleProofRequest f₁ e₁ s₁).1 = 0) (h₂ : (trustHandleProofRequest f₂ e₂ s₂).1 = 0)
    (hhost : s₁.g.gTrustHostFp = s₂.g.gTrustHostFp) (hphone : s₁.g.gTrustPhoneFp = s₂.g.gTrustPhoneFp)
    (hm₁ : .signed m ∈ since s₁ (trustHandleProofRequest f₁ e₁ s₁).2)
    (hm₂ : .signed m ∈ since s₂ (trustHandleProofRequest f₂ e₂ s₂).2) :
    SameFields f₁.val f₂.val ↔ SameBars f₁.val f₂.val ∧ SameTails f₁.val f₂.val := by
  constructor
  · intro h
    have hraw : ∀ k ∈ rawFields ++ [("EXPIRES", 64)], frameField f₁.val k.1 = frameField f₂.val k.1 := by
      intro k hk
      simp only [rawFields, List.cons_append, List.nil_append, List.mem_cons, List.not_mem_nil,
        or_false] at hk
      rcases hk with rfl | rfl | rfl
      · exact h "NONCE" (by simp)
      · exact h "ISSUED" (by simp)
      · exact h "EXPIRES" (by simp)
    refine ⟨fun k hk => ?_, fun k hk => by rw [hraw k hk]⟩
    rw [trustFrameField_eq_cut, trustFrameField_eq_cut, hraw k (List.mem_append_left _ hk)]
  · rintro ⟨hbars, htails⟩
    obtain ⟨r₁, t₁, hscreen₁, hwait₁, hplain₁, hrun₁⟩ := trustHandleProofRequest_ok (sendsOk_of_rc h₁)
    obtain ⟨r₂, t₂, hscreen₂, hwait₂, hplain₂, hrun₂⟩ := trustHandleProofRequest_ok (sendsOk_of_rc h₂)
    have hmsg₁ := ((trustHandleProofRequest_events hwait₁ hplain₁ (congrArg Prod.snd hrun₁)).1 m).mp hm₁
    have hmsg₂ := ((trustHandleProofRequest_events hwait₂ hplain₂ (congrArg Prod.snd hrun₂)).1 m).mp hm₂
    obtain ⟨ha₁, hr₁, ⟨n₁, hn₁, hnc₁⟩, ⟨i₁, hi₁, hic₁⟩, x₁, hx₁, hxc₁⟩ :=
      proofScreen_fields f₁.nulFree hscreen₁
    obtain ⟨ha₂, hr₂, ⟨n₂, hn₂, hnc₂⟩, ⟨i₂, hi₂, hic₂⟩, x₂, hx₂, hxc₂⟩ :=
      proofScreen_fields f₂.nulFree hscreen₂
    obtain ⟨-, hdec₁, -⟩ := proofScreen_eq_ok hscreen₁
    obtain ⟨-, hdec₂, -⟩ := proofScreen_eq_ok hscreen₂
    obtain ⟨-, hab₁, hrb₁, -⟩ := proofDecode_eq_some hdec₁
    obtain ⟨-, hab₂, hrb₂, -⟩ := proofDecode_eq_some hdec₂
    have hnb := hbars ("NONCE", 128) (by simp [rawFields])
    have hib := hbars ("ISSUED", 64) (by simp [rawFields])
    have hnt := htails ("NONCE", 128) (by simp [rawFields])
    have hit := htails ("ISSUED", 64) (by simp [rawFields])
    have hxt := htails ("EXPIRES", 64) (by simp [rawFields])
    simp only [trustFrameField_eq_cut, hn₁, hn₂, hi₁, hi₂, hx₁, hx₂, Option.map_some,
      Option.some.injEq] at hnb hib hnt hit hxt
    rw [hmsg₁, proofMessage_eq, proofMessage_eq, hhost, hphone, hnc₁, hic₁, hxc₁, hnc₂, hic₂,
      hxc₂] at hmsg₂
    obtain ⟨ha, hr, hn, hi, hx⟩ := ownerTranscript_inj (bar_notMem_of_hexDecode hab₁)
      (bar_notMem_of_hexDecode hab₂) (bar_notMem_of_hexDecode hrb₁) (bar_notMem_of_hexDecode hrb₂)
      hnb hib hmsg₂
    have hjoin : ∀ {k : ℕ} {v w : Bytes}, cut k v = cut k w → v.drop (k - 1) = w.drop (k - 1) → v = w := by
      intro k v w hc hd
      rw [← List.take_append_drop (k - 1) v, ← List.take_append_drop (k - 1) w, hd]
      exact congrArg (· ++ _) hc
    have hfields : ∀ key v w, frameField f₁.val key = some v → frameField f₂.val key = some w → v = w →
        frameField f₁.val key = frameField f₂.val key := by
      rintro key v w hv hw rfl
      rw [hv, hw]
    intro key hkey
    simp only [List.mem_cons, List.not_mem_nil, or_false] at hkey
    rcases hkey with rfl | rfl | rfl | rfl | rfl
    · exact hfields _ _ _ ha₁ ha₂ ha
    · exact hfields _ _ _ hr₁ hr₂ hr
    · exact hfields _ _ _ hn₁ hn₂ (hjoin hn hnt)
    · exact hfields _ _ _ hi₁ hi₂ (hjoin hi hit)
    · exact hfields _ _ _ hx₁ hx₂ (hjoin hx hxt)

theorem ownerProof_transcript_modes :
    SameFields (explicitFrame (lit "6f776e65722e78") (lit "72")).val
      (plainFrame (lit "n") (lit "100") (lit "110")).val :=
  (ownerProof_transcript_iff (explicitFrame (lit "6f776e65722e78") (lit "72"))
    (plainFrame (lit "n") (lit "100") (lit "110")) explicitEnv plainEnv {} {}
    (ownerTranscript (lit "<NONE>") (lit "INITIALIZING") (lit "6f776e65722e78") (lit "72") (lit "n")
      (lit "100") (lit "110")) (by decide +kernel) (by decide +kernel) rfl rfl (by decide +kernel)
    (by decide +kernel)).mpr
    ⟨by unfold SameBars; decide +kernel, by unfold SameTails; decide +kernel⟩

/-- **Two requests, one signature**: NONCE `n|100`, ISSUED `100` and NONCE `n`, ISSUED `100|100`. -/
theorem ownerProof_transcript_collision :
    ¬ ∀ (f₁ f₂ : CStr 4096) (e₁ e₂ : ProofEnv) (s₁ s₂ : Service) (m : Bytes),
      (trustHandleProofRequest f₁ e₁ s₁).1 = 0 → (trustHandleProofRequest f₂ e₂ s₂).1 = 0 →
        s₁.g.gTrustHostFp = s₂.g.gTrustHostFp → s₁.g.gTrustPhoneFp = s₂.g.gTrustPhoneFp →
        .signed m ∈ since s₁ (trustHandleProofRequest f₁ e₁ s₁).2 →
        .signed m ∈ since s₂ (trustHandleProofRequest f₂ e₂ s₂).2 → SameFields f₁.val f₂.val := by
  intro h
  have hbad := h (plainFrame (lit "n|100") (lit "100") (lit "110"))
    (plainFrame (lit "n") (lit "100|100") (lit "110")) plainEnv plainEnv {} {}
    (ownerTranscript (lit "<NONE>") (lit "INITIALIZING") (lit "6f776e65722e78") (lit "72") (lit "n")
      (lit "100|100") (lit "110")) (by decide +kernel) (by decide +kernel) rfl rfl (by decide +kernel)
    (by decide +kernel)
  exact absurd (hbad "NONCE" (by simp)) (by decide +kernel)

end ZorinTrust
