import ZorinTrust.RoundTrip

/-!
# Torn reads of the state file

The service truncates `trust-ui-state` and writes it again while the Activity may be reading, so a read
can find any beginning of the frame.  The reader does not look for the trailer.  `fieldStart` says where
a value stands in the frame; `torn_read_iff` says after which cuts the Activity is left with one state,
the old or the new.
-/

namespace ZorinTrust

open CText Numeral Lines

/-- Where the value of field `i` starts in the frame. -/
def fieldStart (g : Globals) (paired : Bool) (i : ℕ) : ℕ := 11 + valueStart (stateFields g paired) i

section Cut

variable {g : Globals} {paired : Bool}

/-- What the first `n` bytes of the frame show of field `i`. -/
theorem trustFrameField_take {key : String} {v : Bytes} {i : ℕ}
    (hat : (stateFields g paired)[i]? = some (key, v)) (cap n : ℕ) :
    trustFrameField ((stateFrame g paired).take n) key cap =
      if n < fieldStart g paired i then none else some (cut cap (v.take (n - fieldStart g paired i))) := by
  rw [stateFrame_eq, stateText, trustFrameField]
  exact scan_take (isEol_of_all (by decide)) (by decide) (by decide) stateFields_ok stateFields_nodup
    hat n

/-- A later value starts past an earlier one. -/
theorem valueStart_lt {fs : List (String × Bytes)} {i j : ℕ} {f : String × Bytes} (hij : i < j)
    (hj : j < fs.length) (hat : fs[i]? = some f) : valueStart fs i + f.2.length < valueStart fs j := by
  induction fs generalizing i j with
  | nil => simp at hat
  | cons g fs ih =>
    obtain ⟨j, rfl⟩ : ∃ k, j = k + 1 := ⟨j - 1, by omega⟩
    rw [List.length_cons] at hj
    cases i with
    | zero =>
      obtain rfl : g = f := by simpa using hat
      have hlen := length_fieldText g
      simp only [valueStart]
      omega
    | succ i =>
      rw [List.getElem?_cons_succ] at hat
      have h := ih (i := i) (j := j) (by omega) (by omega) hat
      simp only [valueStart]
      omega

theorem length_hexOf_eq {n cap : ℕ} (s : CStr n) (h : 2 * n ≤ cap + 1) :
    (hexOf cap s).length = 2 * s.val.length := trustHexEncode_length (trustHexEncode_hexOf s h)

/-- **A text survives the cut** exactly when it is empty or all of it is there: half of a hex text is
another text, and an odd number of digits is none. -/
theorem trustUiDecodeField_take_iff {key : String} {k : ℕ} [NeZero k] {s : CStr k} (i cap : ℕ)
    (hat : (stateFields g paired)[i]? = some (key, hexOf cap s)) (hcap : 2 * k ≤ cap + 1)
    (hk : 2 * k ≤ 1200) (n : ℕ) :
    trustUiDecodeField ((stateFrame g paired).take n) key k = s ↔
      hexOf cap s = [] ∨ fieldStart g paired i + (hexOf cap s).length ≤ n := by
  have hlen := length_hexOf_eq s hcap
  have hfit := s.fits
  have hempty : CStr.put k [] = s ↔ hexOf cap s = [] := by
    rw [← List.length_eq_zero_iff, hlen]
    constructor
    · rintro rfl
      have hnil : (CStr.put k []).val = [] := by simp [cstr, cut]
      rw [hnil, List.length_nil]
    · intro h0
      apply CStr.ext
      rw [List.length_eq_zero_iff.mp (by omega : s.val.length = 0)]
      simp [cstr, cut]
  unfold trustUiDecodeField
  rw [trustFrameField_take hat]
  by_cases hn : n < fieldStart g paired i
  · rw [if_pos hn]
    dsimp only
    rw [hempty]
    constructor
    · exact Or.inl
    · rintro (h | h)
      · exact h
      · omega
  rw [if_neg hn]
  dsimp only
  by_cases hall : fieldStart g paired i + (hexOf cap s).length ≤ n
  · have hdec : trustHexDecode (hexOf cap s) (k - 1) = some s.val :=
      trustHexDecode_encode (trustHexEncode_hexOf s hcap) (by omega)
    rw [List.take_of_length_le (by omega), cut_of_lt (by omega), hdec, Option.getD_some,
      CStr.put_val_self]
    exact ⟨fun _ => Or.inr hall, fun _ => rfl⟩
  · have hshort : ((hexOf cap s).take (n - fieldStart g paired i)).length =
        n - fieldStart g paired i := by
      rw [List.length_take]
      omega
    rw [cut_of_lt (by omega)]
    constructor
    · intro heq
      left
      cases hdec : trustHexDecode ((hexOf cap s).take (n - fieldStart g paired i)) (k - 1) with
      | none =>
        rw [hdec, Option.getD_none] at heq
        exact hempty.mp heq
      | some x =>
        -- the decoded text is shorter than the one that was encoded
        rw [hdec, Option.getD_some] at heq
        have hx := (trustHexDecode_length hdec).1
        have hle : (CStr.put k x).val.length ≤ x.length := by
          rw [CStr.put_val, cut, List.length_take]
          have := (cstr_isPrefix x).length_le
          omega
        rw [heq] at hle
        omega
    · rintro (h | h)
      · rw [h, List.length_nil] at hall
        omega
      · exact absurd h hall

/-- A number past the cut keeps the old value; before it, the digits that are there count. -/
theorem uiNumber_take {α : Type} {key : String} {v : Bytes} {i : ℕ}
    (hat : (stateFields g paired)[i]? = some (key, v)) (hv : v.length < 64) (n : ℕ) (old : α)
    (read : ℤ → α) : uiNumber ((stateFrame g paired).take n) key old read =
      if n < fieldStart g paired i then old
      else read (trustParseI64 (v.take (n - fieldStart g paired i))) := by
  have hle : (v.take (n - fieldStart g paired i)).length ≤ v.length := List.length_take_le' _ _
  unfold uiNumber
  rw [trustFrameField_take hat]
  by_cases hn : n < fieldStart g paired i
  · rw [if_pos hn, if_pos hn]
  · rw [if_neg hn, if_neg hn, cut_of_lt (by omega)]

/-- A number whose digits are all there reads as in the whole frame. -/
theorem uiNumber_take_of_le {α : Type} {key : String} {v : Bytes} {i : ℕ}
    (hat : (stateFields g paired)[i]? = some (key, v)) (hv : v.length < 64) {n : ℕ}
    (hn : fieldStart g paired i + v.length ≤ n) (old : α) (read : ℤ → α) :
    uiNumber ((stateFrame g paired).take n) key old read = uiNumber (stateFrame g paired) key old read := by
  rw [uiNumber_take hat hv, if_neg (by omega), List.take_of_length_le (by omega), uiNumber,
    trustFrameField_at hat, cut_of_lt hv]

/-- The numbers fit the reader's buffer. -/
theorem length_number {i : ℕ} {f : String × Bytes} (hi : i < 5)
    (hat : (stateFields g paired)[i]? = some f) : f.2.length < 64 := by
  have hstate : (ofInt g.gTrustState.toInt).length ≤ 11 := by
    have hl := g.gTrustState.le_toInt
    have hu := g.gTrustState.toInt_lt
    apply length_ofInt_le (by norm_num)
    norm_num at hl hu ⊢
    omega
  have hcount : (ofNat g.gTrustProofCount.toNat).length ≤ 10 := by
    have hu := g.gTrustProofCount.toNat_lt
    exact length_ofNat_le (by norm_num) (by omega)
  have hflag : ∀ b, (flag b).length = 1 := by decide
  have halive := hflag g.gTrustServiceAlive
  have hpaired := hflag paired
  have hpending := hflag g.gAuthorityPending
  interval_cases i
  all_goals
    obtain rfl := Option.some.inj hat
    dsimp only
    omega

/-- The last number: its digit may be missing when it is 0. -/
theorem uiNumber_take_pending (n : ℕ) (old : Bool) :
    uiNumber ((stateFrame g paired).take n) "AUTH_PENDING" old (· ≠ 0) =
      if n < fieldStart g paired 4 then old
      else if n = fieldStart g paired 4 then false else g.gAuthorityPending := by
  have hat : (stateFields g paired)[4]? = some ("AUTH_PENDING", flag g.gAuthorityPending) := rfl
  have hlen : (flag g.gAuthorityPending).length = 1 := by cases g.gAuthorityPending <;> rfl
  rw [uiNumber_take hat (length_number (by norm_num) hat)]
  by_cases hn : n < fieldStart g paired 4
  · rw [if_pos hn, if_pos hn]
  rw [if_neg hn, if_neg hn]
  by_cases heq : n = fieldStart g paired 4
  · rw [if_pos heq, heq, Nat.sub_self]
    rfl
  · rw [if_neg heq, List.take_of_length_le (by omega)]
    cases g.gAuthorityPending <;> rfl

end Cut

/-! ### The cuts that do no harm -/

/-- The read leaves every field as it was, or sets every field to what was published. -/
def Harmless (g : Globals) (paired : Bool) (n : ℕ) (u : UiCopy) : Prop :=
  ((trustUiSyncFromService ((stateFrame g paired).take n) u).2.g = u.g ∧
    (trustUiSyncFromService ((stateFrame g paired).take n) u).2.gTrustPairedHint = u.gTrustPairedHint) ∨
  ((trustUiSyncFromService ((stateFrame g paired).take n) u).2.g = synced g u.g ∧
    (trustUiSyncFromService ((stateFrame g paired).take n) u).2.gTrustPairedHint = paired)

/-- Everything that says something is there: the numbers, and each text that is not empty. -/
def AllThere (g : Globals) (paired : Bool) (n : ℕ) : Prop :=
  (fieldStart g paired 4 < n ∨ g.gAuthorityPending = false ∧ n = fieldStart g paired 4) ∧
    ∀ i f, 5 ≤ i → (stateFields g paired)[i]? = some f →
      f.2 = [] ∨ fieldStart g paired i + f.2.length ≤ n

variable {g : Globals} {paired : Bool} {n : ℕ}

/-- The reader takes every text of `g` from the frame. -/
def TextsShown (frame : Bytes) (g : Globals) : Prop :=
  trustUiDecodeField frame "STATUS_HEX" 128 = g.gTrustStatus ∧
  trustUiDecodeField frame "HOST_NAME_HEX" 128 = g.gTrustHostName ∧
  trustUiDecodeField frame "HOST_FP_HEX" 128 = g.gTrustHostFp ∧
  trustUiDecodeField frame "HOST_ID_HEX" 96 = g.gTrustHostIdentity ∧
  trustUiDecodeField frame "PHONE_FP_HEX" 128 = g.gTrustPhoneFp ∧
  trustUiDecodeField frame "POLICY_HEX" 96 = g.gTrustPolicy ∧
  trustUiDecodeField frame "TRANSPORT_HEX" 64 = g.gTrustTransport ∧
  trustUiDecodeField frame "PENDING_HEX" 512 = g.gTrustHostPubPending ∧
  trustUiDecodeField frame "LAST_PROOF_HEX" 128 = g.gTrustLastProof ∧
  trustUiDecodeField frame "AUTH_REQUEST_HEX" 96 = g.gAuthorityRequestId ∧
  trustUiDecodeField frame "AUTH_ACTION_HEX" 256 = g.gAuthorityAction ∧
  trustUiDecodeField frame "AUTH_RESOURCE_HEX" 512 = g.gAuthorityResource ∧
  trustUiDecodeField frame "AUTH_PROMPT_HEX" 384 = g.gAuthorityPrompt

/-- The reader ends up with every number of `g`. -/
def NumbersShown (frame : Bytes) (g old : Globals) : Prop :=
  uiNumber frame "STATE" old.gTrustState Int32.ofInt = g.gTrustState ∧
  uiNumber frame "SERVICE_ALIVE" old.gTrustServiceAlive (· ≠ 0) = g.gTrustServiceAlive ∧
  uiNumber frame "PROOF_COUNT" old.gTrustProofCount UInt32.ofInt = g.gTrustProofCount ∧
  uiNumber frame "AUTH_PENDING" old.gAuthorityPending (· ≠ 0) = g.gAuthorityPending

theorem uiGlobals_eq_synced_iff {frame : Bytes} {old : Globals} :
    uiGlobals frame old = synced g old ↔ NumbersShown frame g old ∧ TextsShown frame g := by
  simp only [uiGlobals, synced, Globals.mk.injEq, true_and, NumbersShown, TextsShown]
  constructor
  · rintro ⟨state, status, name, fp, identity, pending, phoneFp, policy, transport, count, proof,
      authority, request, action, resource, prompt, alive⟩
    exact ⟨⟨state, alive, count, authority⟩, status, name, fp, identity, phoneFp, policy, transport,
      pending, proof, request, action, resource, prompt⟩
  · rintro ⟨⟨state, alive, count, authority⟩, status, name, fp, identity, phoneFp, policy, transport,
      pending, proof, request, action, resource, prompt⟩
    exact ⟨state, status, name, fp, identity, pending, phoneFp, policy, transport, count, proof,
      authority, request, action, resource, prompt, alive⟩

/-- The texts of a cut frame, all together. -/
theorem textsShown_take_iff (g : Globals) (paired : Bool) (n : ℕ) :
    TextsShown ((stateFrame g paired).take n) g ↔
      ∀ i f, 5 ≤ i → (stateFields g paired)[i]? = some f →
        f.2 = [] ∨ fieldStart g paired i + f.2.length ≤ n := by
  have hfield {key : String} {k : ℕ} [NeZero k] {s : CStr k} (i cap : ℕ)
      (hat : (stateFields g paired)[i]? = some (key, hexOf cap s)) (hcap : 2 * k ≤ cap + 1)
      (hk : 2 * k ≤ 1200) : trustUiDecodeField ((stateFrame g paired).take n) key k = s ↔
        ∀ f, (stateFields g paired)[i]? = some f →
          f.2 = [] ∨ fieldStart g paired i + f.2.length ≤ n := by
    rw [trustUiDecodeField_take_iff i cap hat hcap hk, hat]
    simp
  rw [TextsShown, hfield 5 260 rfl (by norm_num) (by norm_num),
    hfield 6 260 rfl (by norm_num) (by norm_num), hfield 7 260 rfl (by norm_num) (by norm_num),
    hfield 8 220 rfl (by norm_num) (by norm_num), hfield 9 260 rfl (by norm_num) (by norm_num),
    hfield 10 220 rfl (by norm_num) (by norm_num), hfield 11 180 rfl (by norm_num) (by norm_num),
    hfield 12 1100 rfl (by norm_num) (by norm_num), hfield 13 260 rfl (by norm_num) (by norm_num),
    hfield 14 220 rfl (by norm_num) (by norm_num), hfield 15 540 rfl (by norm_num) (by norm_num),
    hfield 16 1060 rfl (by norm_num) (by norm_num), hfield 17 800 rfl (by norm_num) (by norm_num)]
  constructor
  · rintro ⟨h5, h6, h7, h8, h9, h10, h11, h12, h13, h14, h15, h16, h17⟩ i f hi hat
    have hlt : i < 18 := (List.getElem?_eq_some_iff.mp hat).1
    interval_cases i
    exacts [h5 f hat, h6 f hat, h7 f hat, h8 f hat, h9 f hat, h10 f hat, h11 f hat, h12 f hat, h13 f hat,
      h14 f hat, h15 f hat, h16 f hat, h17 f hat]
  · intro h
    have hle (i : ℕ) (hi : 5 ≤ i) := fun f hat => h i f hi hat
    exact ⟨hle 5 (by norm_num), hle 6 (by norm_num), hle 7 (by norm_num), hle 8 (by norm_num),
      hle 9 (by norm_num), hle 10 (by norm_num), hle 11 (by norm_num), hle 12 (by norm_num),
      hle 13 (by norm_num), hle 14 (by norm_num), hle 15 (by norm_num), hle 16 (by norm_num),
      hle 17 (by norm_num)⟩

/-- Up to the last number every number before it is whole. -/
theorem uiNumber_take_before {α : Type} {key : String} {v : Bytes} {i : ℕ} (hi : i < 4)
    (hat : (stateFields g paired)[i]? = some (key, v)) (hn : fieldStart g paired 4 ≤ n) (old : α)
    (read : ℤ → α) :
    uiNumber ((stateFrame g paired).take n) key old read = uiNumber (stateFrame g paired) key old read := by
  have hcount : (stateFields g paired).length = 18 := rfl
  have hlt := valueStart_lt hi (by rw [hcount]; norm_num) hat
  apply uiNumber_take_of_le hat (length_number (by omega) hat)
  unfold fieldStart at hn ⊢
  dsimp only at hlt
  omega

theorem numbersShown_take (hn : fieldStart g paired 4 < n ∨
    g.gAuthorityPending = false ∧ n = fieldStart g paired 4) (old : Globals) :
    NumbersShown ((stateFrame g paired).take n) g old := by
  have hle : fieldStart g paired 4 ≤ n := by
    rcases hn with h | ⟨-, h⟩ <;> omega
  refine ⟨?_, ?_, ?_, ?_⟩
  · rw [uiNumber_take_before (i := 0) (by norm_num) rfl hle, uiNumber_state]
  · rw [uiNumber_take_before (i := 1) (by norm_num) rfl hle]
    exact uiNumber_flag 1 rfl _
  · rw [uiNumber_take_before (i := 3) (by norm_num) rfl hle, uiNumber_proofCount]
  · rw [uiNumber_take_pending, if_neg (by omega)]
    rcases hn with h | ⟨h0, h⟩
    · rw [if_neg (by omega)]
    · rw [if_pos h, h0]

/-- **A torn read is harmless** for every state of the Activity exactly when it finds no header, or
everything that says something. -/
theorem torn_read_iff (g : Globals) (paired : Bool) (n : ℕ) :
    (∀ u, Harmless g paired n u) ↔ n < 10 ∨ AllThere g paired n := by
  by_cases h10 : n < 10
  · refine ⟨fun _ => Or.inl h10, fun _ u => Or.inl ?_⟩
    rw [(sync_take g paired n u).1 h10]
    exact ⟨rfl, rfl⟩
  have hsync (u : UiCopy) := (sync_take g paired n u).2 (not_lt.mp h10)
  constructor
  · intro h
    right
    -- an Activity whose status the frame does not show, and whose pending flag is the other one
    obtain ⟨status, hstatus⟩ : ∃ status : CStr 128,
        status ≠ trustUiDecodeField ((stateFrame g paired).take n) "STATUS_HEX" 128 := by
      by_cases hnil : trustUiDecodeField ((stateFrame g paired).take n) "STATUS_HEX" 128 = .put 128 []
      · exact ⟨.put 128 [1], by rw [hnil]; decide⟩
      · exact ⟨.put 128 [], fun heq => hnil heq.symm⟩
    let u : UiCopy := { g := { g with gTrustStatus := status, gAuthorityPending := !g.gAuthorityPending } }
    obtain ⟨-, hglobals, -⟩ := hsync u
    rcases h u with ⟨hsame, -⟩ | ⟨hnew, -⟩
    · rw [hglobals] at hsame
      exact absurd (congrArg Globals.gTrustStatus hsame).symm hstatus
    · rw [hglobals, uiGlobals_eq_synced_iff] at hnew
      obtain ⟨⟨-, -, -, hpending⟩, htexts⟩ := hnew
      refine ⟨?_, (textsShown_take_iff g paired n).mp htexts⟩
      rw [uiNumber_take_pending] at hpending
      split_ifs at hpending with hlt heq
      · exact absurd hpending (Bool.not_ne_self _)
      · exact Or.inr ⟨hpending.symm, heq⟩
      · exact Or.inl (by omega)
  · rintro (hlt | ⟨hnumbers, htexts⟩) u
    · exact absurd hlt h10
    obtain ⟨-, hglobals, hhint⟩ := hsync u
    have hle : fieldStart g paired 4 ≤ n := by
      rcases hnumbers with h | ⟨-, h⟩ <;> omega
    right
    rw [hglobals, uiGlobals_eq_synced_iff, hhint]
    refine ⟨⟨numbersShown_take hnumbers u.g, (textsShown_take_iff g paired n).mpr htexts⟩, ?_⟩
    rw [uiNumber_take_before (i := 2) (by norm_num) rfl hle]
    exact uiNumber_flag 2 rfl _

/-- A host with key `ab` waits for approval. -/
def waitingHost : Globals := { gTrustState := 1, gTrustHostPubPending := .put 512 (lit "ab") }

/-- The read ends between the two letters of the key: the Activity asks for an approval of `a`. -/
theorem torn_read_pending : ¬ ∀ (g : Globals) (paired : Bool) (n : ℕ) (u : UiCopy),
    Harmless g paired n u := by
  intro h
  have hpending : (trustUiSyncFromService ((stateFrame waitingHost false).take 313)
      {}).2.g.gTrustHostPubPending.val = lit "a" := by
    decide +kernel
  rcases h waitingHost false 313 {} with ⟨hsame, -⟩ | ⟨hnew, -⟩
  · rw [hsame] at hpending
    exact absurd hpending (by decide)
  · rw [hnew] at hpending
    exact absurd hpending (by decide)

end ZorinTrust
