import ZorinTrust.PrivateIpv4
import ZorinTrust.ProofTranscript

/-!
# Deep links to a direct endpoint

`trust_apply_transport_intent` takes host, port, expiry, mode and invitation from a `zorintrust://connect`
link, which any web page can open, and `trust_set_direct_endpoint` checks them and leaves them for the
service in the file `direct-transport`.  The numbers of a link are parsed without a limit and the port is
narrowed before its range is checked: `link_numbers_iff` says which texts mean what is stored.
-/

namespace ZorinTrust

open CText Numeral Lines

/-- A C string of any length. -/
abbrev CChars := { s : Bytes // 0 ∉ s }

/-- The arguments of `trust_set_direct_endpoint`; without a mode the pointer is null. -/
structure DirectEndpoint where
  host : CChars
  port : Int32
  expires : Int64
  mode : Option CChars
  invite : CChars

/-- How `trust_ui_write_file` ends. -/
inductive FileWrite
  | done
  | noPath
  | openFailed
  /-- A `write` fails after this many bytes. -/
  | broken (n : ℕ)

/-- `trust_ui_write_file`: its code, and the file afterwards. -/
def trustUiWriteFile (w : FileWrite) (data : Bytes) (file : Option Bytes) : ℤ × Option Bytes :=
  match w with
  | .done => (0, some data)
  | .noPath => (-1, file)
  | .openFailed => (-2, file)
  | .broken n => (-3, some (data.take n))

/-- The mode that is written. -/
def DirectEndpoint.modeText (a : DirectEndpoint) : Bytes :=
  match a.mode with
  | none => lit "direct"
  | some mode => mode.val

/-- The fields of the frame, in order. -/
def DirectEndpoint.fields (a : DirectEndpoint) : List (String × Bytes) :=
  [("HOST", a.host.val), ("PORT", ofInt a.port.toInt), ("EXPIRES", ofInt a.expires.toInt),
    ("MODE", a.modeText), ("INVITE", a.invite.val)]

/-- The `snprintf` of `trust_set_direct_endpoint`, before its cut. -/
def DirectEndpoint.text (a : DirectEndpoint) : Bytes :=
  lit "ZTRANSPORT/1" ++ 10 :: (a.fields.flatMap (fun f => fieldText f ++ [10]) ++ (lit "END" ++ [10]))

def DirectEndpoint.frame (a : DirectEndpoint) : Bytes := cut 384 a.text

/-- `trust_set_direct_endpoint` on the clock and the file `direct-transport`. -/
def trustSetDirectEndpoint (a : DirectEndpoint) (clock : Option Int64) (w : FileWrite)
    (file : Option Bytes) : ℤ × Option Bytes :=
  if trustParsePrivateIpv4 a.host.val = none then (-1, file)
  else if a.port < 1 ∨ a.port > 65535 then (-2, file)
  else if trustValidInvite a.invite.val = false then (-3, file)
  else
    match clock with
    | none => (-4, file)
    | some now =>
      if a.expires ≤ now ∨ a.expires > now + 3600 then (-5, file)
      else trustUiWriteFile w a.frame file

/-- The query texts of a link that has a host, a port, an expiry and an invitation. -/
structure DeepLink where
  host : CChars
  port : CChars
  expires : CChars
  mode : Option CChars
  invite : CChars

def directMode : CChars := ⟨lit "direct", by decide⟩

/-- What `trust_apply_transport_intent` hands on: the numbers parsed, the port narrowed. -/
def DeepLink.endpoint (d : DeepLink) : DirectEndpoint where
  host := d.host
  port := Int32.ofInt (trustParseI64 d.port.val)
  expires := Int64.ofInt (trustParseI64 d.expires.val)
  mode := some (d.mode.getD directMode)
  invite := d.invite

/-- `trust_apply_transport_intent`: its result, and the file afterwards.  When it takes an endpoint it
also sends RECONNECT to the service. -/
def trustApplyTransportIntent (d : Option DeepLink) (clock : Option Int64) (w : FileWrite)
    (file : Option Bytes) : Bool × Option Bytes :=
  match d with
  | none => (false, file)
  | some d =>
    let (rc, file) := trustSetDirectEndpoint d.endpoint clock w file
    (rc = 0, file)

/-! ### What is accepted -/

/-- The checks of `trust_set_direct_endpoint`. -/
structure DirectEndpoint.Accepted (a : DirectEndpoint) (now : Int64) : Prop where
  host : ∃ address, trustParsePrivateIpv4 a.host.val = some address
  port : 1 ≤ a.port.toInt ∧ a.port.toInt ≤ 65535
  invite : trustValidInvite a.invite.val = true
  expires : now.toInt < a.expires.toInt ∧ a.expires.toInt ≤ now.toInt + 3600

/-- An expiry between the clock and the sum that `long long` computes lies within the hour. -/
theorem expires_window {expires now : Int64} (h : ¬ (expires ≤ now ∨ expires > now + 3600)) :
    now.toInt < expires.toInt ∧ expires.toInt ≤ now.toInt + 3600 := by
  rw [not_or, Int64.not_le, gt_iff_lt, Int64.not_lt, Int64.lt_iff_toInt_lt, Int64.le_iff_toInt_le,
    Int64.toInt_add, show (3600 : Int64).toInt = 3600 from rfl] at h
  obtain ⟨hlt, hle⟩ := h
  refine ⟨hlt, ?_⟩
  -- a sum that wraps is below the clock
  have hlow := Int64.le_toInt now
  have hhigh := Int64.toInt_lt now
  obtain ⟨k, hk⟩ := exists_wrap_eq (w := 64) (now.toInt + 3600)
  have hmem := wrap_mem (w := 64) (by norm_num) (now.toInt + 3600)
  have hsum : expires.toInt ≤ wrap 64 (now.toInt + 3600) := hle
  rw [hk] at hmem hsum
  norm_num at hmem hlow hhigh hsum
  omega

/-- **What a call that returns 0 has checked and written.** -/
theorem accepted_of_set {a : DirectEndpoint} {clock : Option Int64} {w : FileWrite}
    {file : Option Bytes} (h : (trustSetDirectEndpoint a clock w file).1 = 0) :
    ∃ now, clock = some now ∧ a.Accepted now ∧
      (trustSetDirectEndpoint a clock w file).2 = some a.frame := by
  unfold trustSetDirectEndpoint at h ⊢
  by_cases hhost : trustParsePrivateIpv4 a.host.val = none
  · rw [if_pos hhost] at h
    cases h
  by_cases hport : a.port < 1 ∨ a.port > 65535
  · rw [if_neg hhost, if_pos hport] at h
    cases h
  by_cases hinvite : trustValidInvite a.invite.val = false
  · rw [if_neg hhost, if_neg hport, if_pos hinvite] at h
    cases h
  rw [if_neg hhost, if_neg hport, if_neg hinvite] at h ⊢
  cases clock with
  | none => cases h
  | some now =>
    dsimp only at h ⊢
    by_cases hexpires : a.expires ≤ now ∨ a.expires > now + 3600
    · rw [if_pos hexpires] at h
      cases h
    rw [if_neg hexpires] at h ⊢
    refine ⟨now, rfl, ⟨Option.ne_none_iff_exists'.mp hhost, ?_, by simpa using hinvite,
      expires_window hexpires⟩, ?_⟩
    · rw [not_or, Int32.not_lt, gt_iff_lt, Int32.not_lt, Int32.le_iff_toInt_le,
        Int32.le_iff_toInt_le] at hport
      exact hport
    · cases w with
      | done => rfl
      | noPath => cases h
      | openFailed => cases h
      | broken n => cases h

/-! ### The numbers of a link -/

/-- The values of an `int`. -/
def FitsInt32 (x : ℤ) : Prop := -2 ^ 31 ≤ x ∧ x < 2 ^ 31

instance (x : ℤ) : Decidable (FitsInt32 x) := inferInstanceAs (Decidable (_ ∧ _))

/-- The two texts are numerals for the numbers that are stored, and the expiry is within the hour. -/
structure DeepLink.SaysStored (d : DeepLink) (clock : Option Int64) : Prop where
  port : isDecimal d.port.val = true ∧ decimalVal d.port.val = d.endpoint.port.toInt
  expires : isDecimal d.expires.val = true ∧ decimalVal d.expires.val = d.endpoint.expires.toInt
  window : ∃ now, clock = some now ∧ now.toInt < decimalVal d.expires.val ∧
    decimalVal d.expires.val ≤ now.toInt + 3600

/-- Numerals that fit the variables they are parsed into. -/
def DeepLink.ExactNumbers (d : DeepLink) : Prop :=
  isDecimal d.port.val = true ∧ FitsInt32 (decimalVal d.port.val) ∧
    isDecimal d.expires.val = true ∧ FitsInt64 (decimalVal d.expires.val)

instance (d : DeepLink) : Decidable d.ExactNumbers := inferInstanceAs (Decidable (_ ∧ _ ∧ _ ∧ _))

/-- **A link means what it says** exactly when its numbers are numerals that fit: an `int` for the port,
a `long long` for the expiry. -/
theorem link_numbers_iff (d : DeepLink) (clock : Option Int64) (w : FileWrite) (file : Option Bytes)
    (h : (trustApplyTransportIntent (some d) clock w file).1 = true) :
    d.SaysStored clock ↔ d.ExactNumbers := by
  have hset : (trustSetDirectEndpoint d.endpoint clock w file).1 = 0 := by
    simpa [trustApplyTransportIntent] using h
  obtain ⟨now, hclock, haccepted, -⟩ := accepted_of_set hset
  constructor
  · rintro ⟨⟨hport, hportval⟩, ⟨hexpires, hexpiresval⟩, -⟩
    refine ⟨hport, ?_, hexpires, ?_⟩
    · rw [hportval]
      exact ⟨Int32.le_toInt _, Int32.toInt_lt _⟩
    · rw [hexpiresval]
      exact ⟨Int64.le_toInt _, Int64.toInt_lt _⟩
  · rintro ⟨hport, hportfits, hexpires, hexpiresfits⟩
    have hport64 : FitsInt64 (decimalVal d.port.val) := by
      obtain ⟨hlow, hhigh⟩ := hportfits
      constructor <;> omega
    have hportval : decimalVal d.port.val = d.endpoint.port.toInt := by
      show _ = (Int32.ofInt (trustParseI64 d.port.val)).toInt
      rw [trustParseI64_of_fits hport hport64, Int32.toInt_ofInt_of_le hportfits.1 hportfits.2]
    have hexpiresval : decimalVal d.expires.val = d.endpoint.expires.toInt := by
      show _ = (Int64.ofInt (trustParseI64 d.expires.val)).toInt
      rw [trustParseI64_of_fits hexpires hexpiresfits,
        Int64.toInt_ofInt_of_le hexpiresfits.1 hexpiresfits.2]
    exact ⟨⟨hport, hportval⟩, ⟨hexpires, hexpiresval⟩, now, hclock, hexpiresval ▸ haccepted.expires⟩

/-! ### Samples -/

def chars (s : String) (h : 0 ∉ lit s := by decide) : CChars := ⟨lit s, h⟩

/-- A link to 192.168.0.7 with this port and this expiry. -/
def sampleLink (port expires : CChars) : DeepLink where
  host := chars "192.168.0.7"
  port
  expires
  mode := some (chars "portable")
  invite := chars "0123456789abcdef0123456789abcdef"

theorem link_numbers_plain :
    (sampleLink (chars "47472") (chars "1100")).SaysStored (some 1000) := by
  refine (link_numbers_iff _ (some 1000) .done none ?_).mpr ?_
  · decide +kernel
  · decide +kernel

/-- `4295014768` is 47472 in 32 bits, and what follows a digit is not read. -/
theorem link_numbers_wrapped : ¬ ∀ (d : DeepLink) (clock : Option Int64) (w : FileWrite)
    (file : Option Bytes), (trustApplyTransportIntent (some d) clock w file).1 = true →
    d.SaysStored clock := by
  intro hall
  have hstored := hall (sampleLink (chars "4295014768") (chars "1100x")) (some 1000) .done none
    (by decide +kernel)
  exact absurd hstored.port.2 (by decide +kernel)

end ZorinTrust
