import ZorinTrust.Provenance
import ZorinTrust.ProofTranscript

/-!
# The transcripts of the handshake

The phone signs a PHONE message, the host a HOST message; both join the two nonces and the two keys
with bars, and the host's nonce is any text at all.  A `Transcript` carries what the other three parts
are known to be, and that is enough to parse both messages: the PHONE message from the right, the HOST
message from both ends.  `handshake_transcripts` says so of every session.
-/

namespace ZorinTrust

open CText

/-- The four parts of a handshake; only the host's nonce may hold a bar. -/
@[ext] structure Transcript where
  hostnonce : CStr 128
  phnonce : Bytes
  hostpub : CStr 512
  phonepub : Bytes
  phnonce_bar : bar ∉ phnonce
  phnonce_le : phnonce.length ≤ 64
  hostpub_bar : bar ∉ hostpub.val
  phonepub_bar : bar ∉ phonepub
  phonepub_le : phonepub.length ≤ 511

namespace Transcript

variable {p q : Transcript}

/-- The message the phone signs. -/
def phone (p : Transcript) : Bytes :=
  [bar].intercalate [lit "ZTRUST/2", lit "PHONE", p.hostnonce.val, p.phnonce, p.hostpub.val, p.phonepub]

/-- The message the host signs. -/
def host (p : Transcript) : Bytes := hostMessage p.phnonce p.hostnonce.val p.phonepub p.hostpub.val

/-! ### Parsing -/

theorem phone_eq (p : Transcript) : p.phone = lit "ZTRUST/2" ++ bar :: (lit "PHONE" ++ bar ::
    (p.hostnonce.val ++ bar :: (p.phnonce ++ bar :: (p.hostpub.val ++ bar :: p.phonepub)))) := by
  simp [phone, List.intercalate_cons_cons]

theorem host_eq (p : Transcript) : p.host = lit "ZTRUST/2" ++ bar :: (lit "HOST" ++ bar ::
    (p.phnonce ++ bar :: (p.hostnonce.val ++ bar :: (p.phonepub ++ bar :: p.hostpub.val)))) := by
  simp [host, hostMessage, List.intercalate_cons_cons]

/-- Texts without a bar, joined by bars, hold one bar fewer than there are texts. -/
theorem count_bar_cons {a x : Bytes} (ha : bar ∉ a) :
    (a ++ bar :: x).count bar = x.count bar + 1 := by
  rw [List.count_append, List.count_eq_zero_of_not_mem ha, List.count_cons_self, Nat.zero_add]

/-- **The PHONE message is parsed from the right**: past the nonce of the host no part holds a bar. -/
theorem phone_inj (h : p.phone = q.phone) : p = q := by
  rw [phone_eq, phone_eq] at h
  obtain ⟨-, h⟩ := append_sep_inj h rfl
  obtain ⟨-, h⟩ := append_sep_inj h rfl
  have hcount : (p.phnonce ++ bar :: (p.hostpub.val ++ bar :: p.phonepub)).count bar =
      (q.phnonce ++ bar :: (q.hostpub.val ++ bar :: q.phonepub)).count bar := by
    rw [count_bar_cons p.phnonce_bar, count_bar_cons q.phnonce_bar, count_bar_cons p.hostpub_bar,
      count_bar_cons q.hostpub_bar, List.count_eq_zero_of_not_mem p.phonepub_bar,
      List.count_eq_zero_of_not_mem q.phonepub_bar]
  obtain ⟨hnonce, h⟩ := append_sep_inj_right h hcount
  obtain ⟨hph, h⟩ := append_sep_inj_of_notMem h p.phnonce_bar q.phnonce_bar
  obtain ⟨hhost, hphone⟩ := append_sep_inj_of_notMem h p.hostpub_bar q.hostpub_bar
  exact Transcript.ext (CStr.ext hnonce) hph (CStr.ext hhost) hphone

/-- **The HOST message is parsed from both ends**: the phone's nonce comes before the host's. -/
theorem host_inj (h : p.host = q.host) : p = q := by
  rw [host_eq, host_eq] at h
  obtain ⟨-, h⟩ := append_sep_inj h rfl
  obtain ⟨-, h⟩ := append_sep_inj h rfl
  obtain ⟨hph, h⟩ := append_sep_inj_of_notMem h p.phnonce_bar q.phnonce_bar
  have hcount : (p.phonepub ++ bar :: p.hostpub.val).count bar =
      (q.phonepub ++ bar :: q.hostpub.val).count bar := by
    rw [count_bar_cons p.phonepub_bar, count_bar_cons q.phonepub_bar,
      List.count_eq_zero_of_not_mem p.hostpub_bar, List.count_eq_zero_of_not_mem q.hostpub_bar]
  obtain ⟨hnonce, h⟩ := append_sep_inj_right h hcount
  obtain ⟨hphone, hhost⟩ := append_sep_inj_of_notMem h p.phonepub_bar q.phonepub_bar
  exact Transcript.ext (CStr.ext hnonce) hph (CStr.ext hhost) hphone

/-- The second segment of a message names its role. -/
theorem role_inj {r r' x y : Bytes} (hr : bar ∉ r) (hr' : bar ∉ r')
    (h : lit "ZTRUST/2" ++ bar :: (r ++ bar :: x) = lit "ZTRUST/2" ++ bar :: (r' ++ bar :: y)) :
    r = r' := by
  obtain ⟨-, h⟩ := append_sep_inj h rfl
  exact (append_sep_inj_of_notMem h hr hr').1

theorem phone_ne_host (p q : Transcript) : p.phone ≠ q.host := by
  intro h
  rw [phone_eq, host_eq] at h
  exact absurd (role_inj (by decide) (by decide) h) (by decide)

/-- The buffer of an owner proof cuts its end, never its role. -/
theorem proofMessage_role (g : Globals) (r : ProofRequest) :
    ∃ x, proofMessage g r = lit "ZTRUST/2" ++ bar :: (lit "OWNER_PROOF" ++ bar :: x) := by
  rw [proofMessage_eq]
  exact ⟨_, by simp only [ownerTranscript, List.intercalate_cons_cons, List.append_assoc,
    List.singleton_append]; rfl⟩

theorem phone_ne_proofMessage (p : Transcript) (g : Globals) (r : ProofRequest) :
    p.phone ≠ proofMessage g r := by
  intro h
  obtain ⟨x, hx⟩ := proofMessage_role g r
  rw [phone_eq, hx] at h
  exact absurd (role_inj (by decide) (by decide) h) (by decide)

/-- The message fits its buffer, so nothing of it is cut. -/
theorem handshakeMessage_phone (p : Transcript) :
    handshakeMessage "PHONE" [p.hostnonce.val, p.phnonce, p.hostpub.val, p.phonepub] = p.phone := by
  apply cut_of_lt
  have h1 := p.hostnonce.fits
  have h2 := p.hostpub.fits
  have h3 := p.phnonce_le
  have h4 := p.phonepub_le
  have h5 : (lit "ZTRUST/2").length = 8 := rfl
  have h6 : (lit "PHONE").length = 5 := rfl
  simp only [List.intercalate_cons_cons, List.intercalate_singleton, List.length_append,
    List.length_singleton, h5, h6]
  omega

/-- The same for the HOST message. -/
theorem handshakeMessage_host_eq (p : Transcript) :
    handshakeMessage "HOST" [p.phnonce, p.hostnonce.val, p.phonepub, p.hostpub.val] = p.host :=
  handshakeMessage_host p.hostnonce p.hostpub p.phnonce_le p.phonepub_le

end Transcript

/-! ### Sessions -/

/-- A session past the trust check, with a phone key of at most 255 bytes. -/
structure Handshake (c : Crypto) where
  hello : Hello
  received : ∃ e : HelloEnv, e.hello c = some hello
  link : Link
  answer : AnswerEnv
  der_le : ∀ der ∈ answer.phoneDer, der.val.length ≤ 255
  s : Service

namespace Handshake

variable {c : Crypto} {t u : Handshake c} {m : Bytes}

/-- The session hands this message to `trust_sign`. -/
def Signs (t : Handshake c) (m : Bytes) : Prop :=
  .signed m ∈ since t.s (sendPhoneProof c t.link t.hello t.answer t.s).2

/-- The session hands this message to `trust_verify_host`, once the host has answered. -/
def Verifies (t : Handshake c) (m : Bytes) : Prop :=
  ∃ phonepub phnonce, (sendPhoneProof c t.link t.hello t.answer t.s).1 = some (phonepub, phnonce) ∧
    m = handshakeMessage "HOST" [phnonce, t.hello.hostnonce.val, phonepub, t.hello.hostpub.val]

/-- The four parts of the session: what the host sent, the random nonce and the key of the phone. -/
structure Has (t : Handshake c) (p : Transcript) : Prop where
  hostnonce : p.hostnonce = t.hello.hostnonce
  hostpub : p.hostpub = t.hello.hostpub
  phnonce : ∃ nonce, t.answer.random = some nonce ∧ trustHexEncode nonce.val 80 = some p.phnonce
  phonepub : ∃ der, t.answer.phoneDer = some der ∧ trustHexEncode der.val 512 = some p.phonepub

/-- How far the phone's half gets: it signs nothing, or the one message its nonce and key make. -/
theorem sendPhoneProof_signs (c : Crypto) (link : Link) (h : Hello) (e : AnswerEnv) (s : Service) :
    ((sendPhoneProof c link h e s).1 = none ∧
        ∀ m, .signed m ∉ since s (sendPhoneProof c link h e s).2) ∨
      ∃ der nonce, e.phoneDer = some der ∧ e.random = some nonce ∧
        (∀ m, .signed m ∈ since s (sendPhoneProof c link h e s).2 →
          m = handshakeMessage "PHONE" [h.hostnonce.val, (trustHexEncode nonce.val 80).getD [],
            h.hostpub.val, e.phonepub der.val]) ∧
        ∀ r, (sendPhoneProof c link h e s).1 = some r →
          r = (e.phonepub der.val, (trustHexEncode nonce.val 80).getD []) := by
  have hquiet {s' : Service} (l : List Event) (hlog : s'.log = l ++ s.log) (hl : ∀ m, .signed m ∉ l) :
      ∀ m, .signed m ∉ since s s' := by
    intro m
    rw [since_eq hlog]
    exact hl m
  have hone {s' : Service} (v : Event) (hv : ∀ m, v ≠ .signed m) (proof : Bytes)
      (hlog : s'.log = v :: .signed proof :: s.log) : ∀ m, .signed m ∈ since s s' → m = proof := by
    intro m hm
    rw [since_eq (l := [v, .signed proof]) hlog] at hm
    rcases List.mem_cons.mp hm with hm | hm
    · exact absurd hm.symm (hv m)
    · exact Event.signed.inj (List.mem_singleton.mp hm)
  unfold sendPhoneProof
  cases hder : e.phoneDer with
  | none => exact Or.inl ⟨rfl, hquiet [_] rfl (by simp)⟩
  | some der =>
    dsimp only
    cases hrandom : e.random with
    | none => exact Or.inl ⟨rfl, hquiet [] rfl (by simp)⟩
    | some nonce =>
      refine Or.inr ⟨der, nonce, rfl, rfl, ?_⟩
      dsimp only
      generalize hproof : handshakeMessage "PHONE" _ = proof
      cases trustSign e.keystore 160 proof with
      | none => exact ⟨hone _ (by simp) proof rfl, by simp⟩
      | some sig =>
        dsimp only
        refine ⟨hone _ (by simp) proof rfl, ?_⟩
        intro r hr
        split_ifs at hr
        exact (Option.some.inj hr).symm

/-- The nonce and the key of a session make a transcript. -/
theorem exists_has (t : Handshake c) {der nonce} (hder : t.answer.phoneDer = some der)
    (hrandom : t.answer.random = some nonce) : ∃ p, t.Has p ∧
      p.phnonce = (trustHexEncode nonce.val 80).getD [] ∧ p.phonepub = t.answer.phonepub der.val := by
  obtain ⟨e, he⟩ := t.received
  have hok := HelloEnv.hello_ok he
  have hlen := t.der_le der hder
  have hn : nonce.val.length * 2 < 80 := by rw [nonce.property]; norm_num
  have hp : der.val.length * 2 < 512 := by omega
  obtain ⟨x, hx⟩ : ∃ x, trustHexEncode nonce.val 80 = some x := ⟨_, trustHexEncode_of_lt hn⟩
  obtain ⟨y, hy⟩ : ∃ y, trustHexEncode der.val 512 = some y := ⟨_, trustHexEncode_of_lt hp⟩
  have hxlen := trustHexEncode_length hx
  have hylen := trustHexEncode_length hy
  rw [nonce.property] at hxlen
  have hbar {z w : Bytes} {cap : ℕ} (h : trustHexEncode z cap = some w) : bar ∉ w := by
    intro hc
    rcases mem_trustHexEncode h hc with hc | hc
    · exact absurd hc (by decide)
    · exact absurd hc (by decide)
  refine ⟨⟨t.hello.hostnonce, x, t.hello.hostpub, y, hbar hx, by omega,
    bar_notMem_of_hexDecode hok.hostder, hbar hy, by omega⟩, ?_, ?_, ?_⟩
  · exact ⟨rfl, rfl, ⟨nonce, hrandom, hx⟩, ⟨der, hder, hy⟩⟩
  · rw [hx, Option.getD_some]
  · rw [AnswerEnv.phonepub, hy, Option.getD_some]

/-- A session has one transcript. -/
theorem Has.unique {p q : Transcript} (hp : t.Has p) (hq : t.Has q) : p = q := by
  obtain ⟨nonce, hn, hx⟩ := hp.phnonce
  obtain ⟨nonce', hn', hx'⟩ := hq.phnonce
  obtain ⟨der, hd, hy⟩ := hp.phonepub
  obtain ⟨der', hd', hy'⟩ := hq.phonepub
  obtain rfl := Option.some.inj (hn.symm.trans hn')
  obtain rfl := Option.some.inj (hd.symm.trans hd')
  exact Transcript.ext (hp.hostnonce.trans hq.hostnonce.symm) (Option.some.inj (hx.symm.trans hx'))
    (hp.hostpub.trans hq.hostpub.symm) (Option.some.inj (hy.symm.trans hy'))

/-- What a session signs is its PHONE message, in full. -/
theorem Signs.phone (h : t.Signs m) : ∃ p, t.Has p ∧ m = p.phone := by
  rcases sendPhoneProof_signs c t.link t.hello t.answer t.s with ⟨-, hno⟩ | ⟨der, nonce, hder, hrandom,
    hsigned, -⟩
  · exact absurd h (hno m)
  · obtain ⟨p, hp, hn, hk⟩ := t.exists_has hder hrandom
    refine ⟨p, hp, ?_⟩
    rw [hsigned m h, ← hn, ← hk, ← hp.hostnonce, ← hp.hostpub, p.handshakeMessage_phone]

/-- What a session verifies is its HOST message, in full. -/
theorem Verifies.host (h : t.Verifies m) : ∃ p, t.Has p ∧ m = p.host := by
  obtain ⟨phonepub, phnonce, hsent, rfl⟩ := h
  rcases sendPhoneProof_signs c t.link t.hello t.answer t.s with ⟨hno, -⟩ | ⟨der, nonce, hder, hrandom,
    -, hr⟩
  · rw [hno] at hsent
    cases hsent
  · obtain ⟨p, hp, hn, hk⟩ := t.exists_has hder hrandom
    obtain ⟨rfl, rfl⟩ := Prod.mk.inj (hr _ hsent)
    refine ⟨p, hp, ?_⟩
    rw [← hn, ← hk, ← hp.hostnonce, ← hp.hostpub, p.handshakeMessage_host_eq]

/-- The answer of the host is judged by its signature on that message and on no other. -/
theorem judgeAnswer_congr {c' : Crypto} {h : Hello} {phonepub phnonce frame : Bytes} (s : Service)
    (hv : ∀ sig, c'.verify h.hostder (handshakeMessage "HOST" [phnonce, h.hostnonce.val, phonepub,
      h.hostpub.val]) sig = c.verify h.hostder (handshakeMessage "HOST" [phnonce, h.hostnonce.val,
      phonepub, h.hostpub.val]) sig) :
    judgeAnswer c' h phonepub phnonce frame s = judgeAnswer c h phonepub phnonce frame s := by
  simp only [judgeAnswer, hv]

/-- **The handshake transcripts are injective and domain-separated**: over all sessions a signed PHONE
message is whole and determines its four parts, so does a HOST message that is verified, and no PHONE
message is a HOST message or the message signed for a proof request.  What the session does with the host's
answer depends on the signatures over the HOST message it verifies and over no other. -/
theorem handshake_transcripts (c : Crypto) (t u : Handshake c) :
    (∀ m, t.Signs m → ∃ p, t.Has p ∧ m = p.phone) ∧
    (∀ m p q, t.Signs m → u.Signs m → t.Has p → u.Has q → p = q) ∧
    (∀ m, t.Verifies m → ∃ p, t.Has p ∧ m = p.host) ∧
    (∀ m p q, t.Verifies m → u.Verifies m → t.Has p → u.Has q → p = q) ∧
    (∀ m m', t.Signs m → u.Verifies m' → m ≠ m') ∧
    (∀ m frame e s, t.Signs m → .signed m ∉ since s (trustHandleProofRequest frame e s).2) ∧
    ∀ (c' : Crypto) (phonepub phnonce frame : Bytes) (s : Service),
      (sendPhoneProof c t.link t.hello t.answer t.s).1 = some (phonepub, phnonce) →
      (∀ m sig, t.Verifies m → c'.verify t.hello.hostder m sig = c.verify t.hello.hostder m sig) →
      judgeAnswer c' t.hello phonepub phnonce frame s = judgeAnswer c t.hello phonepub phnonce frame s := by
  refine ⟨fun m => Signs.phone, ?_, fun m => Verifies.host, ?_, ?_, ?_, ?_⟩
  · intro m p q ht hu hp hq
    obtain ⟨p', hp', hm⟩ := ht.phone
    obtain ⟨q', hq', hm'⟩ := hu.phone
    rw [hp.unique hp', hq.unique hq']
    exact Transcript.phone_inj (hm.symm.trans hm')
  · intro m p q ht hu hp hq
    obtain ⟨p', hp', hm⟩ := ht.host
    obtain ⟨q', hq', hm'⟩ := hu.host
    rw [hp.unique hp', hq.unique hq']
    exact Transcript.host_inj (hm.symm.trans hm')
  · intro m m' ht hu
    obtain ⟨p, -, rfl⟩ := ht.phone
    obtain ⟨q, -, rfl⟩ := hu.host
    exact p.phone_ne_host q
  · intro m frame e s ht hsigned
    obtain ⟨p, -, rfl⟩ := ht.phone
    obtain ⟨r, -, heq⟩ := signed_trustHandleProofRequest hsigned
    exact p.phone_ne_proofMessage s.g r heq
  · exact fun c' phonepub phnonce frame s hsent hv =>
      judgeAnswer_congr s fun sig => hv _ sig ⟨phonepub, phnonce, hsent, rfl⟩

/-- A host whose nonce is made up of fake fields. -/
def barsHello : Hello where
  hostpub := .put 512 (lit "aa")
  hostnonce := .put 128 (lit "01|aa|bb")
  hostname := .put 128 (lit "UNKNOWN HOST")
  hostidentity := .put 96 (lit "UNKNOWN")
  hostder := [170]
  fp := fingerprintText 0 (170 :: List.replicate 15 0)

theorem handshake_transcripts_bars : ∃ (t : Handshake sampleCrypto) (m m' : Bytes), t.Signs m ∧
    t.Verifies m' ∧ m ≠ m' := by
  have hreceived : ∃ e : HelloEnv, e.hello sampleCrypto = some barsHello :=
    ⟨{ chunks := [lit "ZTRUST/2\nHOST_PUB aa\nHOST_NONCE 01|aa|bb\nEND\n"] }, by decide +kernel⟩
  let answer : AnswerEnv := {
    phoneDer := some ⟨[1], by decide⟩
    random := some ⟨List.replicate 32 7, by decide⟩
    keystore := fun _ => some [9]
    chunks := [] }
  have hder : ∀ der ∈ answer.phoneDer, der.val.length ≤ 255 := by
    intro der hder
    obtain rfl := Option.some.inj hder
    decide
  have hsigned : .signed (handshakeMessage "PHONE"
      [lit "01|aa|bb", (List.replicate 32 (lit "07")).flatten, lit "aa", lit "01"]) ∈
        since {} (sendPhoneProof sampleCrypto ⟨false, .put 40 []⟩ barsHello answer {}).2 := by
    decide +kernel
  have hsent : (sendPhoneProof sampleCrypto ⟨false, .put 40 []⟩ barsHello answer {}).1 =
      some (lit "01", (List.replicate 32 (lit "07")).flatten) := by
    decide +kernel
  let t : Handshake sampleCrypto := ⟨barsHello, hreceived, ⟨false, .put 40 []⟩, answer, hder, {}⟩
  have hverifies : t.Verifies (handshakeMessage "HOST"
      [(List.replicate 32 (lit "07")).flatten, lit "01|aa|bb", lit "01", lit "aa"]) :=
    ⟨_, _, hsent, rfl⟩
  obtain ⟨-, -, -, -, hne, -⟩ := handshake_transcripts sampleCrypto t t
  exact ⟨t, _, _, hsigned, hverifies, hne _ _ hsigned hverifies⟩

end Handshake

end ZorinTrust
