import ZorinTrust.Routine
import ZorinTrust.RoundTrip

/-!
# Change detection in the UI

`trust_ui_sync_from_service` compares a frame with a copy of the last one, in a buffer smaller than the
frame's.  The writers of the two fingerprints and of the transport never fill their globals, so what the
service publishes fits into the copy, and the comparison is exact.
-/

namespace ZorinTrust

open CText Numeral Machine

/-! ### What the writers store -/

/-- The colons of a fingerprint stand between the pairs of bytes. -/
theorem length_fingerprintText_succ : ∀ (i : ℕ) (d : Bytes),
    (fingerprintText (i + 1) d).length = 2 * d.length + ((i + d.length + 2) / 2 - (i + 2) / 2)
  | i, [] => by
    show 0 = 0 + ((i + 0 + 2) / 2 - (i + 2) / 2)
    omega
  | i, c :: d => by
    have ih := length_fingerprintText_succ (i + 1) d
    have hc : (upperHex c).length = 2 := rfl
    rw [fingerprintText, List.length_append, ih, List.length_cons]
    split_ifs with h
    · rw [List.length_cons, hc]
      omega
    · rw [hc]
      omega

/-- A fingerprint has 39 characters. -/
theorem length_trustFingerprintDer {sha256 : Bytes → Bytes} {der fp : Bytes}
    (h : trustFingerprintDer sha256 der = some fp) : fp.length = 39 := by
  unfold trustFingerprintDer at h
  split_ifs at h with hbad
  cases h
  rw [not_or, not_lt] at hbad
  have htake : ((sha256 der).take 16).length = 16 := List.length_take_of_le hbad.2
  match hd : (sha256 der).take 16, htake with
  | c :: d, htake =>
    have hc : (upperHex c).length = 2 := rfl
    have hlen := length_fingerprintText_succ 0 d
    rw [List.length_cons] at htake
    rw [fingerprintText, if_neg (by simp), List.length_append, hc, hlen]
    omega

/-- The texts leave room in the copy. -/
structure PeerTexts.Fit (p : PeerTexts) : Prop where
  hostFp : p.hostFp.val.length ≤ 39
  phoneFp : p.phoneFp.val.length ≤ 39
  transport : p.transport.val.length ≤ 21

/-- What is published leaves room. -/
def FitEvent : Event → Prop
  | .published g _ => g.peers.Fit
  | _ => True

/-- The stretch keeps the texts short, and so are those it publishes. -/
def KeepsFit (s t : Service) : Prop := s.g.peers.Fit → t.g.peers.Fit ∧ Emits FitEvent s t

variable {c : Crypto} {s t u : Service}

namespace KeepsFit

theorem trans (h : KeepsFit s t) (h' : KeepsFit t u) : KeepsFit s u := fun hs => by
  obtain ⟨ht, hevents⟩ := h hs
  obtain ⟨hu, hevents'⟩ := h' ht
  exact ⟨hu, hevents.trans hevents'⟩

theorem set (hfit : s.g.peers.Fit → t.g.peers.Fit) (hlog : t.log = s.log) : KeepsFit s t := fun hs =>
  ⟨hfit hs, .of_log_eq hlog⟩

theorem composes : Composes KeepsFit := ⟨fun _ => .set id rfl, .trans⟩

theorem emit (ev : Event) (s : Service) (h : FitEvent ev) : KeepsFit s (s.emit ev) := fun hs =>
  ⟨hs, .single ev rfl h⟩

theorem publish (hfit : s.g.peers.Fit → t.g.peers.Fit) (hlog : t.log = s.log) :
    KeepsFit s (trustUiPublishState t) := fun hs =>
  ⟨hfit hs, .single (.published t.g _) (by rw [← hlog]; rfl) (hfit hs)⟩

end KeepsFit

theorem Routine.keepsFit (h : Routine s t) : KeepsFit s t := fun hs => by
  obtain ⟨new, hlog, hnew⟩ := h.events
  refine ⟨by rwa [h.peers], new, hlog, fun ev hev => ?_⟩
  have hroutine := hnew ev hev
  cases ev with
  | published g paired =>
    show g.peers.Fit
    rwa [hroutine.1]
  | consumed _ _ => trivial
  | directCleared => trivial
  | connecting _ _ => trivial
  | signed _ => trivial
  | sent _ => trivial

theorem length_put_le (cap : ℕ) [NeZero cap] (b : Bytes) : (CStr.put cap b).val.length ≤ b.length := by
  rw [CStr.put_val, cut]
  exact (List.length_take_le' _ _).trans (cstr_isPrefix b).length_le

/-- The phone's fingerprint, where it is written: computed, or as it was. -/
theorem phoneFp_fit {digestOk : Bool} {der : Bytes} (h : s.g.peers.Fit) :
    (phoneFpOf c digestOk der s.g).val.length ≤ 39 := by
  unfold phoneFpOf
  cases hfp : trustFingerprintDer c.sha256 der with
  | none => exact h.phoneFp
  | some fp =>
    dsimp only
    split_ifs
    · exact (length_put_le 128 fp).trans (length_trustFingerprintDer hfp).le
    · exact h.phoneFp

theorem keepsFit_workerStart (c : Crypto) (e : StartEnv) (s : Service) :
    KeepsFit s (workerStart c e s) := by
  unfold workerStart
  cases e.phoneDer with
  | none =>
    refine .publish (fun hs => ⟨hs.hostFp, ?_, hs.transport⟩) rfl
    exact (length_put_le 128 (lit "KEYSTORE ERROR")).trans (by decide)
  | some der => exact .publish (fun hs => ⟨hs.hostFp, phoneFp_fit hs, hs.transport⟩) rfl

theorem keepsFit_forgetHost (s : Service) : KeepsFit s (forgetHost s) := by
  unfold forgetHost
  split_ifs
  · exact KeepsFit.trans (.set (t := { s with g := { s.g with gTrustPortableHostPub := .put 512 [] } })
      id rfl) (.emit .directCleared _ trivial)
  · exact .set id rfl
  · exact .set id rfl

theorem keepsFit_forgetStep (s : Service) : KeepsFit s (forgetStep s) := by
  by_cases hf : s.g.gTrustForgetRequested = true
  · have hstep : forgetStep s = trustSetStatus 0 "WORKSTATION REVOKED" _ := if_pos hf
    rw [hstep]
    refine (keepsFit_forgetHost s).trans (.publish (fun h => ⟨?_, h.phoneFp, h.transport⟩) rfl)
    exact (length_put_le 128 (lit "<NONE>")).trans (by decide)
  · rw [forgetStep_of_not_requested (by simpa using hf)]
    exact (Routine.refl s).keepsFit

theorem keepsFit_approveHost (s : Service) : KeepsFit s (approveHost s) := by
  unfold approveHost
  split_ifs
  · exact .set id rfl
  · exact .set id rfl

theorem keepsFit_approveStep (s : Service) : KeepsFit s (approveStep s) := by
  by_cases hdue : ApprovalDue s.g
  · have hstep : approveStep s = trustSetStatus 0 "WORKSTATION APPROVED - AUTHENTICATING" _ := if_pos hdue
    rw [hstep]
    exact (keepsFit_approveHost s).trans (.publish id rfl)
  · rw [approveStep_of_not_due hdue]
    exact (Routine.refl s).keepsFit

theorem keepsFit_openLink (e : HelloEnv) (s : Service) : KeepsFit s (openLink e s).2 := by
  refine KeepsFit.composes.connect e s ?_ ?_ ?_
  · intro text s h
    exact .set (fun hs => ⟨hs.hostFp, hs.phoneFp, (length_put_le 64 (lit text)).trans h⟩) rfl
  · exact fun s => .emit _ s trivial
  · exact fun _ _ s => .emit _ s trivial

/-- The host's fingerprint is the one of the hello. -/
theorem keepsFit_meet {h : Hello} (hh : HelloOk c h) (s : Service) : KeepsFit s (meet h s) := by
  refine .set (fun hs => ⟨?_, hs.phoneFp, hs.transport⟩) rfl
  obtain ⟨der, -, hfp⟩ := Option.bind_eq_some_iff.mp hh.fp
  exact (length_put_le 128 h.fp).trans (length_trustFingerprintDer hfp).le

theorem keepsFit_helloStep (e : HelloEnv) (s : Service) : KeepsFit s (helloStep c e s).s := by
  have hopen := keepsFit_openLink e s
  unfold helloStep sessionOpen
  generalize openLink e s = q at hopen ⊢
  obtain ⟨opened, s₁⟩ := q
  cases opened with
  | none => exact hopen
  | some link =>
    dsimp only
    cases hh : e.hello c with
    | none =>
      unfold HelloEnv.hello at hh
      rw [hh]
      exact hopen
    | some h =>
      have hmeet := hopen.trans (keepsFit_meet (HelloEnv.hello_ok hh) s₁)
      unfold HelloEnv.hello at hh
      rw [hh]
      exact hmeet

theorem keepsFit_checkStep (link : Link) (h : Hello) (s : Service) :
    KeepsFit s (checkStep link h s).s := by
  unfold checkStep sessionCheck
  generalize trustCheck _ _ _ _ = q
  obtain ⟨same, prefs⟩ := q
  cases same with
  | true => exact .publish id rfl
  | false => exact .publish id rfl

theorem keepsFit_answerStep (link : Link) (h : Hello) (e : AnswerEnv) (s : Service) :
    KeepsFit s (answerStep c link h e s).s := by
  rw [answerStep_service]
  refine KeepsFit.composes.answer c link h e ?_ fun _ _ frame s =>
    (routine_judgeAnswer c h _ _ frame s).keepsFit
  refine KeepsFit.composes.phoneProof c link h e s ?_ ?_ ?_ ?_
  · exact fun _ _ => .publish id rfl
  · exact fun _ => .set (fun hs => ⟨hs.hostFp, phoneFp_fit hs, hs.transport⟩) rfl
  · exact fun msg s => .emit (.signed msg) s trivial
  · exact fun _ _ _ _ _ s _ => .emit _ s trivial

/-! ### The runs -/

/-- **One step keeps the texts short.** -/
theorem keepsFit_of_next {l : Label} {w w' : Worker} (hnext : next c l w = some w') :
    KeepsFit w.s w'.s := by
  cases routineCase_of_next hnext with
  | routine h => exact h.keepsFit
  | start e s => exact keepsFit_workerStart c e s
  | forget s => exact keepsFit_forgetStep s
  | approve s => exact keepsFit_approveStep s
  | hello e s => exact keepsFit_helloStep e s
  | check link h s => exact keepsFit_checkStep link h s
  | answer e link h s => exact keepsFit_answerStep link h e s

/-- The texts of a reachable state are short, and so are those of what was published before it. -/
theorem fit_of_reach {p₀ : Prefs} {w : Worker} (h : Reach (next c) (Worker.init p₀) w) :
    w.s.g.peers.Fit ∧ ∀ ev ∈ w.s.log, FitEvent ev := by
  have hstart : ({} : Globals).peers.Fit := ⟨by decide, by decide, by decide⟩
  have hinit : (Worker.init p₀).s.g.peers.Fit ∧ ∀ ev ∈ (Worker.init p₀).s.log, FitEvent ev :=
    ⟨hstart, fun ev hev => by cases hev⟩
  refine h.invariant (I := fun w => w.s.g.peers.Fit ∧ ∀ ev ∈ w.s.log, FitEvent ev) hinit
    fun t l u ht _ hnext => ?_
  obtain ⟨hu, new, hlog, hnew⟩ := keepsFit_of_next hnext ht.1
  refine ⟨hu, fun ev hev => ?_⟩
  rw [hlog] at hev
  rcases List.mem_append.mp hev with hev | hev
  · exact hnew ev hev
  · exact ht.2 ev hev

theorem length_stateFrame_lt {g : Globals} (paired : Bool) (h : g.peers.Fit) :
    (stateFrame g paired).length < 5200 := by
  have hlen := length_stateText_le g paired
  have h1 : g.gTrustHostFp.val.length ≤ 39 := h.hostFp
  have h2 : g.gTrustPhoneFp.val.length ≤ 39 := h.phoneFp
  have h3 : g.gTrustTransport.val.length ≤ 21 := h.transport
  rw [stateFrame_eq]
  omega

/-! ### The comparison -/

/-- A frame that some run of the service has published. -/
def PublishedFrame (frame : Bytes) : Prop :=
  ∃ (c : Crypto) (p₀ : Prefs) (w : Worker) (g : Globals) (paired : Bool),
    Reach (next c) (Worker.init p₀) w ∧ .published g paired ∈ w.s.log ∧ frame = stateFrame g paired

/-- The UI's copy after it has read these frames whole, one after another. -/
def reading (frames : List Bytes) (u : UiCopy) : UiCopy :=
  frames.foldl (fun u frame => (trustUiSyncFromService frame u).2) u

theorem PublishedFrame.length_lt {frame : Bytes} (h : PublishedFrame frame) : frame.length < 5200 := by
  obtain ⟨c, p₀, w, g, paired, hreach, hlog, rfl⟩ := h
  exact length_stateFrame_lt paired ((fit_of_reach hreach).2 _ hlog)

theorem PublishedFrame.ne_nil {frame : Bytes} (h : PublishedFrame frame) : frame ≠ [] := by
  obtain ⟨c, p₀, w, g, paired, -, -, rfl⟩ := h
  rw [stateFrame_eq, stateText]
  exact List.append_ne_nil_of_left_ne_nil (by decide) _

/-- **One read**: the frame is compared with the copy, and the copy becomes the frame. -/
theorem sync_published {frame : Bytes} (h : PublishedFrame frame) (u : UiCopy) :
    (trustUiSyncFromService frame u).1 = (if u.gTrustUiLastFrame.val = frame then 0 else 1) ∧
      (trustUiSyncFromService frame u).2.gTrustUiLastFrame.val = frame := by
  have hlen := h.length_lt
  have hne := h.ne_nil
  obtain ⟨c, p₀, w, g, paired, -, -, rfl⟩ := h
  obtain ⟨hcut, hcstr⟩ := read_stateFrame g paired (stateFrame g paired).length
  have hheader := header_stateFrame g paired (stateFrame g paired).length
  rw [List.take_length] at hcut hcstr hheader
  have hlong : 10 ≤ (stateFrame g paired).length := by
    rw [stateFrame_eq, stateText, List.length_append]
    exact Nat.le_add_right 10 _
  have hput : (CStr.put 5200 (stateFrame g paired)).val = stateFrame g paired :=
    CStr.put_val_of_fits nulFree_stateFrame hlen
  have hguard : ¬ (stateFrame g paired = [] ∨ (strstr (stateFrame g paired) (lit "ZTRUSTUI/2") = false ∧
      strstr (stateFrame g paired) (lit "ZTRUSTUI/1") = false)) := by
    rw [hheader, not_or]
    exact ⟨hne, by omega⟩
  have hchanged : (u.gTrustUiLastFrame.val = [] ∨
      miniStreq u.gTrustUiLastFrame.val (stateFrame g paired) = false) ↔
      u.gTrustUiLastFrame.val ≠ stateFrame g paired := by
    rw [← Bool.not_eq_true, miniStreq_iff]
    constructor
    · rintro (hempty | hdiff)
      · rw [hempty]
        exact hne.symm
      · exact hdiff
    · exact Or.inr
  unfold trustUiSyncFromService
  dsimp only
  rw [hcut, hcstr, if_neg hguard]
  dsimp only
  simp only [hchanged]
  by_cases hsame : u.gTrustUiLastFrame.val = stateFrame g paired
  · rw [if_neg (not_not.mpr hsame), if_neg (not_not.mpr hsame), if_pos hsame]
    exact ⟨rfl, hsame⟩
  · rw [if_pos hsame, if_pos hsame, if_neg hsame]
    exact ⟨rfl, hput⟩

/-- **Change detection is exact**: the frame of every state fits into the copy, the first read reports a
change, and a later one does exactly when its frame is not the one read before. -/
theorem ui_change_exact :
    (∀ (c : Crypto) (p₀ : Prefs) (w : Worker), Reach (next c) (Worker.init p₀) w → ∀ paired,
      (stateFrame w.s.g paired).length < 5200) ∧
    (∀ frame, PublishedFrame frame → frame.length < 5200 ∧ (trustUiSyncFromService frame {}).1 = 1) ∧
    ∀ (frames : List Bytes) (previous frame : Bytes) (u : UiCopy), PublishedFrame previous →
      PublishedFrame frame → (trustUiSyncFromService frame (reading (frames ++ [previous]) u)).1 =
        if frame = previous then 0 else 1 := by
  refine ⟨fun c p₀ w h paired => length_stateFrame_lt paired (fit_of_reach h).1,
    fun frame h => ⟨h.length_lt, ?_⟩, fun frames previous frame u hprevious hframe => ?_⟩
  · rw [(sync_published h {}).1, if_neg]
    exact fun hempty => h.ne_nil hempty.symm
  · have hlast : (reading (frames ++ [previous]) u).gTrustUiLastFrame.val = previous := by
      rw [reading, List.foldl_append]
      exact (sync_published hprevious _).2
    rw [(sync_published hframe _).1, hlast]
    simp only [eq_comm]

/-- The frames of a service that comes and goes. -/
theorem ui_change_exact_lifecycle : ∃ f f', PublishedFrame f ∧ PublishedFrame f' ∧
    (trustUiSyncFromService f {}).1 = 1 ∧ (trustUiSyncFromService f (reading [f] {})).1 = 0 ∧
    (trustUiSyncFromService f' (reading [f, f] {})).1 = 1 := by
  have hpublished (alive : Bool) :
      PublishedFrame (stateFrame { gTrustServiceAlive := alive } false) := by
    refine ⟨sampleCrypto, {}, ⟨.off, lifecycleStep alive {}⟩, _, _, ?_, List.mem_cons_self, rfl⟩
    exact Run.step (l := .lifecycle alive) .refl trivial rfl
  obtain ⟨-, hfirst, hlater⟩ := ui_change_exact
  refine ⟨_, _, hpublished true, hpublished false, (hfirst _ (hpublished true)).2, ?_, ?_⟩
  · exact (hlater [] _ _ {} (hpublished true) (hpublished true)).trans (if_pos rfl)
  · refine (hlater [_] _ _ {} (hpublished true) (hpublished false)).trans (if_neg ?_)
    decide +kernel

end ZorinTrust
