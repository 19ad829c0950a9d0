import ZorinTrust.Codec
import ZorinTrust.Lib.Loop
import ZorinTrust.Lib.Packed
import ZorinTrust.Lib.Search

/-!
# The APK signer

`apk_v2.py` signs an archive under APK Signature Scheme v2 and verifies what it signed.  The signer puts
a signing block before the central directory and moves the directory's offset in the end record; the
verifier finds both again by parsing the file.  A script that raises gives `none`.  `Oracle` is what
the script takes from `hashlib` and `cryptography`, and the offsets below are Python's, never negative
where the code goes on.
-/

namespace ZorinTrust

open CText Packed Search Loop

/-- The functions of `hashlib` and `cryptography` that the script calls. -/
structure Oracle (Key Cert : Type) where
  sha256 : Bytes → Bytes
  length_sha256 : ∀ b, (sha256 b).length = 32
  loadDerCertificate : Bytes → Option Cert
  certificateDer : Cert → Bytes
  publicKeyDer : Cert → Bytes
  sign : Key → Bytes → Option Bytes
  verify : Cert → Bytes → Bytes → Bool

def v2Id : ℕ := 1896449818

def algRsaPkcs1Sha256 : ℕ := 259

def sigBlockMagic : Bytes := lit "APK Sig Block 42"

def oneMb : ℕ := 1 <<< 20

def eocdSig : Bytes := [0x50, 0x4B, 5, 6]

def u32 (n : ℕ) : Option Bytes := pack 4 n

def u64 (n : ℕ) : Option Bytes := pack 8 n

def lp32 (b : Bytes) : Option Bytes := do
  let n ← u32 b.length
  return n ++ b

/-! ### The end of the central directory -/

/-- The offset and the size of the directory in the end record at `pos`; `none` when the search goes on.
The reads stay inside `data`. -/
def eocdAt (data : Bytes) (pos : ℕ) : Option (ℕ × ℕ) := do
  guard (pos + 22 ≤ data.length)
  let commentLen ← unpackFrom 2 data (pos + 20)
  guard (pos + 22 + commentLen = data.length)
  let cdSize ← unpackFrom 4 data (pos + 12)
  let cdOff ← unpackFrom 4 data (pos + 16)
  guard (cdOff ≠ 4294967295 ∧ cdSize ≠ 4294967295)
  return (cdOff, cdSize)

/-- One turn of the search from the candidate `pos`; without a candidate it raises. -/
def eocdTurn (data : Bytes) (start : ℕ) : Option ℕ → Option ((ℕ × ℕ × ℕ) ⊕ Option ℕ)
  | none => none
  | some pos =>
    match eocdAt data pos with
    | some (cdOff, cdSize) => some (Sum.inl (pos, cdOff, cdSize))
    | none => some (Sum.inr (rfind data eocdSig start pos))

/-- `find_eocd`: the place of the end record, and the offset and the size it gives. -/
def findEocd (data : Bytes) : Option (ℕ × ℕ × ℕ) :=
  let start := data.length - (65535 + 22)
  loop (fun pos => pos.elim 0 (· + 1)) (eocdTurn data start) (rfind data eocdSig start data.length)

/-! ### The content digest -/

/-- The pieces of `oneMb` bytes of a section, the last one shorter. -/
def chunks (sec : Bytes) : List Bytes :=
  (List.range ((sec.length + oneMb - 1) / oneMb)).map fun i => slice sec (i * oneMb) (i * oneMb + oneMb)

/-- What is hashed for a chunk. -/
def chunkMessage (chunk : Bytes) : Option Bytes := do
  let n ← u32 chunk.length
  return 0xA5 :: (n ++ chunk)

/-- What is hashed last, over the digests of the chunks. -/
def topMessage (chunkDigests : List Bytes) : Option Bytes := do
  let n ← u32 chunkDigests.length
  return 0x5A :: (n ++ chunkDigests.flatten)

/-- The byte strings `content_digest` hashes: those of the chunks, and the last one. -/
def digestMessages (sha256 : Bytes → Bytes) (sections : List Bytes) : Option (List Bytes × Bytes) := do
  let messages ← (sections.flatMap chunks).mapM chunkMessage
  let top ← topMessage (messages.map sha256)
  return (messages, top)

/-- `content_digest`. -/
def contentDigest (sha256 : Bytes → Bytes) (sections : List Bytes) : Option Bytes := do
  let (_, top) ← digestMessages sha256 sections
  return sha256 top

/-! ### Signing -/

/-- `lp32(lp32(b))`: a sequence of one item. -/
def lpSequence (b : Bytes) : Option Bytes := do
  lp32 (← lp32 b)

/-- A digest or signature record of the script's algorithm. -/
def algRecord (b : Bytes) : Option Bytes := do
  return (← u32 algRsaPkcs1Sha256) ++ (← lp32 b)

/-- The signed data of `build_v2_value`. -/
def buildSignedData (digest certDer : Bytes) : Option Bytes := do
  let digestsField ← lpSequence (← algRecord digest)
  let certsField ← lpSequence certDer
  let attrsField ← lp32 []
  return digestsField ++ certsField ++ attrsField

section

variable {Key Cert : Type} (O : Oracle Key Cert)

/-- `build_v2_value`. -/
def buildV2Value (digest certDer pubDer : Bytes) (key : Key) : Option Bytes := do
  let signedData ← buildSignedData digest certDer
  let signature ← O.sign key signedData
  let sigsField ← lpSequence (← algRecord signature)
  let signer := (← lp32 signedData) ++ sigsField ++ (← lp32 pubDer)
  lpSequence signer

/-- `build_signing_block`. -/
def buildSigningBlock (v2Value : Bytes) : Option Bytes := do
  let pair := (← u64 (4 + v2Value.length)) ++ (← u32 v2Id) ++ v2Value
  let size := pair.length + 24
  return (← u64 size) ++ pair ++ (← u64 size) ++ sigBlockMagic

/-- `sign_apk`, from the bytes of the input to the bytes of the output. -/
def signApk (key : Key) (cert : Cert) (data : Bytes) : Option Bytes := do
  let (eocdOff, cdOff, cdSize) ← findEocd data
  guard (cdOff + cdSize = eocdOff)
  let certDer := O.certificateDer cert
  let pubDer := O.publicKeyDer cert
  let digest ← contentDigest O.sha256 [data.take cdOff, slice data cdOff eocdOff, data.drop eocdOff]
  let v2 ← buildV2Value O digest certDer pubDer key
  let block ← buildSigningBlock v2
  let eocd ← packInto 4 (data.drop eocdOff) 16 (cdOff + block.length)
  return data.take cdOff ++ block ++ slice data cdOff eocdOff ++ eocd

end

/-! ### Parsing -/

/-- `take_lp`: a length-prefixed item, and the place behind it. -/
def takeLp (buf : Bytes) (pos : ℕ) : Option (Bytes × ℕ) := do
  guard (pos + 4 ≤ buf.length)
  let n ← unpackFrom 4 buf pos
  guard (pos + 4 + n ≤ buf.length)
  return (slice buf (pos + 4) (pos + 4 + n), pos + 4 + n)

/-- One turn of the loops that read a sequence of items. -/
def itemTurn (seq : Bytes) : ℕ × List Bytes → Option (List Bytes ⊕ ℕ × List Bytes)
  | (p, items) =>
    if p < seq.length then do
      let (item, p) ← takeLp seq p
      return Sum.inr (p, items ++ [item])
    else some (Sum.inl items)

/-- The items of a sequence. -/
def lpItems (seq : Bytes) : Option (List Bytes) :=
  loop (fun st => seq.length - st.1) (itemTurn seq) (0, [])

/-- `parse_first_lp_sequence`. -/
def parseFirstLpSequence (buf : Bytes) : Option (List Bytes) := do
  let (seq, stop) ← takeLp buf 0
  guard (stop = buf.length)
  lpItems seq

/-- What `locate_v2` returns. -/
structure V2Location where
  eocdOff : ℕ
  cdOff : ℕ
  cdSize : ℕ
  blockStart : ℕ
  v2 : Bytes

/-- One turn of the loop over the pairs of the signing block. -/
def pairTurn (data : Bytes) (pairsEnd : ℕ) :
    ℕ × Option Bytes → Option ((ℕ × Option Bytes) ⊕ (ℕ × Option Bytes))
  | (p, v2) =>
    if p < pairsEnd then do
      guard (p + 8 ≤ pairsEnd)
      let n ← unpackFrom 8 data p
      guard (4 ≤ n ∧ p + 8 + n ≤ pairsEnd)
      let pid ← unpackFrom 4 data (p + 8)
      let val := slice data (p + 8 + 4) (p + 8 + n)
      return Sum.inr (p + 8 + n, if pid = v2Id ∧ v2 = none then some val else v2)
    else some (Sum.inl (p, v2))

/-- `locate_v2`. -/
def locateV2 (data : Bytes) : Option V2Location := do
  let (eocdOff, cdOff, cdSize) ← findEocd data
  guard (cdOff + cdSize = eocdOff)
  guard (32 ≤ cdOff ∧ slice data (cdOff - 16) cdOff = sigBlockMagic)
  let size2 ← unpackFrom 8 data (cdOff - 24)
  guard (size2 + 8 ≤ cdOff)
  let blockStart := cdOff - (size2 + 8)
  let size1 ← unpackFrom 8 data blockStart
  guard (size1 = size2)
  let pairsEnd := cdOff - 24
  let (p, v2) ←
    loop (fun st => pairsEnd - st.1) (pairTurn data pairsEnd) (blockStart + 8, none)
  guard (p = pairsEnd)
  let v2 ← v2
  return ⟨eocdOff, cdOff, cdSize, blockStart, v2⟩

/-! ### Verifying -/

/-- The three parts of a signer. -/
structure Signer where
  signedData : Bytes
  sigsSeq : Bytes
  pubDer : Bytes

/-- The one signer of a v2 value. -/
def readSigner (v2 : Bytes) : Option Signer := do
  let signers ← parseFirstLpSequence v2
  guard (signers.length = 1)
  let signer ← signers.head?
  let (signedData, p) ← takeLp signer 0
  let (sigsSeq, p) ← takeLp signer p
  let (pubDer, p) ← takeLp signer p
  guard (p = signer.length)
  return ⟨signedData, sigsSeq, pubDer⟩

/-- The digest records and the certificates of the signed data. -/
def readSignedData (signedData : Bytes) : Option (List Bytes × List Bytes) := do
  let (digestsSeq, q) ← takeLp signedData 0
  let (certsSeq, q) ← takeLp signedData q
  let (attrsSeq, q) ← takeLp signedData q
  guard (q = signedData.length ∧ attrsSeq = [])
  return (← lpItems digestsSeq, ← lpItems certsSeq)

/-- A digest or signature record: the algorithm and the bytes. -/
def readRecord (record : Bytes) : Option (ℕ × Bytes) := do
  let alg ← unpackFrom 4 record 0
  let (b, stop) ← takeLp record 4
  guard (stop = record.length)
  return (alg, b)

/-- `d[alg] = b` for a dictionary that keeps the order of its keys. -/
def setItem (d : List (ℕ × Bytes)) (r : ℕ × Bytes) : List (ℕ × Bytes) :=
  if (d.lookup r.1).isSome then d.map fun e => if e.1 = r.1 then r else e else d ++ [r]

/-- The records by algorithm. -/
def byAlg (records : List Bytes) : Option (List (ℕ × Bytes)) := do
  return (← records.mapM readRecord).foldl setItem []

/-- The fields of the dictionary `verify_apk` returns. -/
structure ApkInfo where
  scheme : Bytes
  algorithm : Bytes
  signers : ℕ
  certificateSha256 : Bytes
  contentSha256Digest : Bytes
  apkSha256 : Bytes
  blockStart : ℕ
  centralDirectoryOffset : ℕ

/-- `bytes.hex`. -/
def hex (b : Bytes) : Bytes := b.flatMap fun c : UInt8 => [hexDigit (c >>> 4), hexDigit (c &&& 15)]

section

variable {Key Cert : Type} (O : Oracle Key Cert)

/-- The checks on the signer: the stored digest and the first certificate. -/
def checkSigner (signer : Signer) : Option (Bytes × Bytes) := do
  let (digestRecords, certs) ← readSignedData signer.signedData
  let sigRecords ← lpItems signer.sigsSeq
  guard (digestRecords ≠ [] ∧ sigRecords ≠ [] ∧ certs ≠ [])
  let digestByAlg ← byAlg digestRecords
  let sigByAlg ← byAlg sigRecords
  guard (digestByAlg.map Prod.fst = sigByAlg.map Prod.fst)
  let storedDigest ← digestByAlg.lookup algRsaPkcs1Sha256
  let signature ← sigByAlg.lookup algRsaPkcs1Sha256
  let certDer ← certs.head?
  let cert ← O.loadDerCertificate certDer
  guard (O.publicKeyDer cert = signer.pubDer)
  guard (O.verify cert signature signer.signedData = true)
  return (storedDigest, certDer)

/-- The sections `verify_apk` digests, the directory's offset put back to the block's start. -/
def verifiedSections (data : Bytes) (loc : V2Location) : Option (List Bytes) := do
  let eocd ← packInto 4 (data.drop loc.eocdOff) 16 loc.blockStart
  return [data.take loc.blockStart, slice data loc.cdOff loc.eocdOff, eocd]

/-- The dictionary that `verify_apk` returns. -/
def apkInfo (data : Bytes) (loc : V2Location) (storedDigest certDer : Bytes) : ApkInfo where
  scheme := lit "v2"
  algorithm := lit "RSA-PKCS1-SHA256 (0x0103)"
  signers := 1
  certificateSha256 := hex (O.sha256 certDer)
  contentSha256Digest := hex storedDigest
  apkSha256 := hex (O.sha256 data)
  blockStart := loc.blockStart
  centralDirectoryOffset := loc.cdOff

/-- `verify_apk`, from the bytes of the file. -/
def verifyApk (data : Bytes) : Option ApkInfo := do
  let loc ← locateV2 data
  let signer ← readSigner loc.v2
  let (storedDigest, certDer) ← checkSigner O signer
  let sections ← verifiedSections data loc
  let actual ← contentDigest O.sha256 sections
  guard (actual = storedDigest)
  return apkInfo O data loc storedDigest certDer

/-- What a file has that passes. -/
theorem verifyApk_eq_some {data : Bytes} {info : ApkInfo} : verifyApk O data = some info ↔
    ∃ loc signer storedDigest certDer sections, locateV2 data = some loc ∧
      readSigner loc.v2 = some signer ∧ checkSigner O signer = some (storedDigest, certDer) ∧
      verifiedSections data loc = some sections ∧
      contentDigest O.sha256 sections = some storedDigest ∧
      info = apkInfo O data loc storedDigest certDer := by
  simp only [verifyApk, Option.bind_eq_bind, Option.bind_eq_some_iff, Option.guard_eq_some',
    Option.pure_def, Option.some.injEq, exists_const, Prod.exists]
  constructor
  · rintro ⟨loc, hloc, signer, hsigner, stored, certDer, hcheck, sections, hsections, actual, hactual,
      rfl, rfl⟩
    exact ⟨loc, signer, actual, certDer, sections, hloc, hsigner, hcheck, hsections, hactual, rfl⟩
  · rintro ⟨loc, signer, stored, certDer, sections, hloc, hsigner, hcheck, hsections, hdigest, rfl⟩
    exact ⟨loc, hloc, signer, hsigner, stored, certDer, hcheck, sections, hsections, stored, hdigest,
      rfl, rfl⟩

end

/-- The file with its signing block taken out and the directory's offset put back. -/
def withoutBlock (data : Bytes) : Option Bytes := do
  let loc ← locateV2 data
  packInto 4 (data.take loc.blockStart ++ data.drop loc.cdOff) (loc.blockStart + loc.cdSize + 16)
    loc.blockStart

end ZorinTrust
