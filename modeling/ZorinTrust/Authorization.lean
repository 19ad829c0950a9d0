import ZorinTrust.System
import ZorinTrust.Requests
import ZorinTrust.Provenance
import ZorinTrust.TornRead

/-!
# What the user authorizes is what is signed

An AUTH_APPROVE names the request it approves by its REQUEST_ID alone, which the host chose, and
`handle_touch` reads the state file once more before it looks at the touch.  What stands on the screen is
what the last look before the last drawing took from the state file, and that may be an earlier request, or
the beginning of a text.  `Approvals` observes a run: whether the copies and then the page have the waiting
request, which page stood behind the command in the file, behind the bytes the service has read, behind the
approval granted to the waiting request, and behind every signature over an EXPLICIT request.
-/

namespace ZorinTrust

open CText Numeral Machine

/-! ### What an observer sees -/

/-- The Requests screen shows the action and the resource of this request. -/
def OnScreen (screen : Option Screen) (r : ProofRequest) : Prop :=
  ∃ sc ∈ screen, sc.action = .put 256 r.ab ∧ sc.resource = .put 512 r.rb

instance (screen : Option Screen) (r : ProofRequest) : Decidable (OnScreen screen r) :=
  inferInstanceAs (Decidable (∃ sc ∈ screen, _))

/-- The globals name the action and the resource of this request. -/
def Asking (g : Globals) (r : ProofRequest) : Prop :=
  g.gAuthorityAction = .put 256 r.ab ∧ g.gAuthorityResource = .put 512 r.rb

instance (g : Globals) (r : ProofRequest) : Decidable (Asking g r) := inferInstanceAs (Decidable (_ ∧ _))

/-- The bytes read give the action and the resource that the whole text gives. -/
def TakesIn (whole read : Bytes) : Prop :=
  trustUiDecodeField read "AUTH_ACTION_HEX" 256 = trustUiDecodeField whole "AUTH_ACTION_HEX" 256 ∧
    trustUiDecodeField read "AUTH_RESOURCE_HEX" 512 = trustUiDecodeField whole "AUTH_RESOURCE_HEX" 512

instance (whole read : Bytes) : Decidable (TakesIn whole read) := inferInstanceAs (Decidable (_ ∧ _))

/-- In a frame both texts have to be there as far as they go. -/
theorem takesIn_stateFrame_iff (g : Globals) (paired : Bool) (n : ℕ) :
    TakesIn (stateFrame g paired) ((stateFrame g paired).take n) ↔
      (hexOf 540 g.gAuthorityAction = [] ∨
        fieldStart g paired 15 + (hexOf 540 g.gAuthorityAction).length ≤ n) ∧
      (hexOf 1060 g.gAuthorityResource = [] ∨
        fieldStart g paired 16 + (hexOf 1060 g.gAuthorityResource).length ≤ n) := by
  unfold TakesIn
  rw [trustUiDecodeField_stateFrame (s := g.gAuthorityAction) 15 540 rfl (by norm_num) (by norm_num),
    trustUiDecodeField_stateFrame (s := g.gAuthorityResource) 16 1060 rfl (by norm_num) (by norm_num),
    trustUiDecodeField_take_iff 15 540 rfl (by norm_num) (by norm_num),
    trustUiDecodeField_take_iff 16 1060 rfl (by norm_num) (by norm_num)]

/-- The Requests screen as it was when a command was written, and whether the request that waited then had
come to it. -/
structure Tap where
  screen : Option Screen := none
  shows : Bool := false

structure Approvals where
  /-- The last look at the state file that found a frame took in the waiting request. -/
  current : Bool := false
  /-- The Requests page was last drawn from such copies. -/
  shown : Bool := false
  /-- Behind the command in the file. -/
  tapped : Tap := {}
  /-- Behind the bytes that the service has read. -/
  held : Tap := {}
  /-- Behind the approval that stands. -/
  granted : Option Tap := none
  signed : List (ProofRequest × Option Screen) := []

/-- The approval that stands once the service has gone on from these bytes. -/
def Approvals.grant (o : Approvals) (r : ProofRequest) (file : Option Bytes) : Option Tap :=
  if Carries file "AUTH_APPROVE" r.requestid.val then some o.held
  else if Carries file "AUTH_DENY" r.requestid.val then none
  else o.granted

/-- What a step of the service shows.  A request that begins to wait may find copies, a page or a command
that have its action and its resource already. -/
def Approvals.serve (o : Approvals) (l : Label) (σ σ' : System) : Approvals :=
  match σ.worker.pc, σ'.worker.pc with
  | .waiting r _, _ =>
    { o with
      granted := o.grant r l.file
      signed := if Signs σ.worker.s σ'.worker.s then (r, (o.grant r l.file).bind Tap.screen) :: o.signed
        else o.signed }
  | _, .waiting r _ =>
    { o with
      current := decide (Asking σ.ui.copy.g r)
      shown := decide (OnScreen σ.ui.screen r)
      tapped := ⟨o.tapped.screen, decide (OnScreen o.tapped.screen r)⟩
      granted := none }
  | _, _ => o

/-- What a step of the Activity shows: a look without a header changes nothing, and a page is drawn from the
copies as they are. -/
def Approvals.act (o : Approvals) (σ : System) : UiLabel → Approvals
  | .sync | .refresh =>
    if σ.stateRead.length < 10 then o
    else { o with current := decide (TakesIn (stateFile σ.worker.s.log) σ.stateRead) }
  | .draw =>
    if σ.ui.gDeveloperMode = false ∧ σ.ui.gProductPage = 1 then
      { o with shown := o.current && σ.ui.copy.g.gAuthorityPending }
    else o
  | .restart => { o with current := false, shown := false }
  | a => if (a.written σ.ui).isSome then { o with tapped := ⟨σ.ui.screen, o.shown⟩ } else o

def Approvals.see (o : Approvals) (σ : System) (l : SysLabel) (σ' : System) : Approvals :=
  match l with
  | .service l => o.serve l σ σ'
  | .fill _ => o
  | .look => { o with held := o.tapped }
  | .ui a => o.act σ a

/-- The approval that stands at a poll which finds the phone unlocked. -/
def unlockedGrant (p : System × Approvals) (l : SysLabel) : Option Tap :=
  match l, p.1.worker.pc with
  | .service (.turn poll _), .waiting r _ => if poll.locked then none else p.2.grant r poll.command
  | _, _ => none

/-- **The condition**: an approval that stands when a poll finds the phone unlocked was written under a page
to which the waiting request had come. -/
def AsShown (p : System × Approvals) (l : SysLabel) : Prop := ∀ tap ∈ unlockedGrant p l, tap.shows = true

instance (p : System × Approvals) (l : SysLabel) : Decidable (AsShown p l) :=
  inferInstanceAs (Decidable (∀ tap ∈ unlockedGrant p l, _))

/-! ### The invariant -/

/-- What the observer says of a page is what stands on it. -/
def Tap.Fits (tap : Tap) (r : ProofRequest) : Prop := tap.shows = true ↔ OnScreen tap.screen r

/-- While `r` waits: it is what the service publishes, the copies and the page have it when the observer
says so, and so has the page behind each command on its way. -/
structure WaitInv (σ : System) (o : Approvals) (r : ProofRequest) : Prop where
  waiting : Waiting r.requestid.val σ.worker.s.g
  id : r.requestid.val ≠ []
  action : CStr.put 256 r.ab ≠ .put 256 []
  asking : Asking σ.worker.s.g r
  file : ∃ g paired, stateFile σ.worker.s.log = stateFrame g paired ∧ Asking g r
  current : o.current = true ↔ Asking σ.ui.copy.g r
  shown : o.shown = true ↔ OnScreen σ.ui.screen r
  tapped : o.tapped.Fits r
  held : σ.held ≠ none → o.held.Fits r
  granted : ∀ tap ∈ o.granted, tap.Fits r
  approved : o.granted.isSome = true ↔ 0 < σ.worker.s.g.gAuthorityDecision

/-- Every signature was approved on the screen of its request. -/
structure ShownInv (p : System × Approvals) : Prop where
  signed : ∀ r screen, (r, screen) ∈ p.2.signed → OnScreen screen r
  wait : ∀ r left, p.1.worker.pc = .waiting r left → WaitInv p.1 p.2 r

variable {c : Crypto} {σ : System} {o : Approvals} {r : ProofRequest}

theorem decide_iff (p : Prop) [Decidable p] : decide p = true ↔ p := by rw [decide_eq_true_eq]

/-! ### The Activity while a request waits -/

/-- **A look takes in the waiting request** exactly when it finds both texts whole. -/
theorem asking_look (hfile : ∃ g paired, stateFile σ.worker.s.log = stateFrame g paired ∧ Asking g r) :
    Asking (σ.ui.sync σ.stateRead).copy.g r ↔
      if σ.stateRead.length < 10 then Asking σ.ui.copy.g r
      else TakesIn (stateFile σ.worker.s.log) σ.stateRead := by
  obtain ⟨g, paired, hfile, haction, hresource⟩ := hfile
  have hlong : 10 ≤ (stateFrame g paired).length := by
    rw [stateFrame_eq, stateText, List.length_append]
    exact Nat.le_add_right 10 _
  have hread : σ.stateRead = (stateFrame g paired).take σ.stateBytes := by rw [System.stateRead, hfile]
  have hshort : σ.stateRead.length < 10 ↔ σ.stateBytes < 10 := by
    rw [hread, List.length_take]
    omega
  obtain ⟨hnone, hsome⟩ := sync_take g paired σ.stateBytes σ.ui.copy
  rw [hfile, hread] at *
  unfold Ui.sync
  by_cases hn : σ.stateBytes < 10
  · rw [if_pos (hshort.mpr hn), hnone hn]
  · rw [if_neg (mt hshort.mp hn)]
    dsimp only
    rw [(hsome (not_lt.mp hn)).2.1]
    unfold TakesIn Asking
    rw [trustUiDecodeField_stateFrame (s := g.gAuthorityAction) 15 540 rfl (by norm_num) (by norm_num),
      trustUiDecodeField_stateFrame (s := g.gAuthorityResource) 16 1060 rfl (by norm_num) (by norm_num),
      haction, hresource]
    rfl

/-- A page drawn from the copies shows what they have. -/
theorem onScreen_draw (hpage : σ.ui.gDeveloperMode = false ∧ σ.ui.gProductPage = 1) :
    OnScreen σ.ui.draw.screen r ↔ σ.ui.copy.g.gAuthorityPending = true ∧ Asking σ.ui.copy.g r := by
  unfold Ui.draw
  rw [if_pos hpage]
  unfold OnScreen Asking
  cases σ.ui.copy.g.gAuthorityPending <;> simp

/-- A touch leaves what the copies say of the request, and the page. -/
theorem touchAct_copy (t : Touch) (e : TouchEnv) (u : Ui) :
    ((touchAct t e u).ui.copy.g.gAuthorityAction = u.copy.g.gAuthorityAction ∧
      (touchAct t e u).ui.copy.g.gAuthorityResource = u.copy.g.gAuthorityResource) ∧
    (touchAct t e u).ui.screen = u.screen := by
  unfold touchAct
  split_ifs
  · unfold developerTouch
    split
    · exact ⟨⟨rfl, rfl⟩, rfl⟩
    · split_ifs <;> exact ⟨⟨rfl, rfl⟩, rfl⟩
  · unfold productTouch
    split
    · exact ⟨⟨rfl, rfl⟩, rfl⟩
    · split_ifs <;> exact ⟨⟨rfl, rfl⟩, rfl⟩

/-- A step of the Activity, by what it does to the copies and to the page. -/
theorem WaitInv.of_ui (h : WaitInv σ o r) {a : UiLabel} {o' : Approvals}
    (hcurrent : o'.current = true ↔ Asking (σ.uiStep a).copy.g r)
    (hshown : o'.shown = true ↔ OnScreen (σ.uiStep a).screen r) (htapped : o'.tapped.Fits r)
    (hheld : o'.held = o.held) (hgranted : o'.granted = o.granted) : WaitInv (σ.uiNext a) o' r where
  waiting := h.waiting
  id := h.id
  action := h.action
  asking := h.asking
  file := h.file
  current := hcurrent
  shown := hshown
  tapped := htapped
  held := by rw [hheld]; exact h.held
  granted := by rw [hgranted]; exact h.granted
  approved := by rw [hgranted]; exact h.approved

/-- A look takes the copies from the state file and leaves the page. -/
theorem WaitInv.look (h : WaitInv σ o r) {a : UiLabel} (hact : o.act σ a = o.act σ .sync)
    (hcopy : (σ.uiStep a).copy = (σ.ui.sync σ.stateRead).copy)
    (hscreen : (σ.uiStep a).screen = σ.ui.screen) : WaitInv (σ.uiNext a) (o.act σ a) r := by
  have hlook := asking_look h.file
  have hshown : o.shown = true ↔ OnScreen (σ.uiStep a).screen r := by
    rw [hscreen]
    exact h.shown
  rw [hact]
  simp only [Approvals.act]
  split_ifs at hlook ⊢ with hshort
  · exact h.of_ui (by rw [hcopy, hlook]; exact h.current) hshown h.tapped rfl rfl
  · exact h.of_ui (by rw [hcopy, hlook]; exact decide_iff _) hshown h.tapped rfl rfl

/-- A touch may write a command, under the page of the moment. -/
theorem WaitInv.touch (h : WaitInv σ o r) (t : Touch) (e : TouchEnv) :
    WaitInv (σ.uiNext (.touch t e)) (o.act σ (.touch t e)) r := by
  obtain ⟨⟨haction, hresource⟩, hscreen⟩ := touchAct_copy t e σ.ui
  have hcurrent : o.current = true ↔ Asking (touchAct t e σ.ui).ui.copy.g r := by
    rw [Asking, haction, hresource]
    exact h.current
  have hshown : o.shown = true ↔ OnScreen (touchAct t e σ.ui).ui.screen r := by
    rw [hscreen]
    exact h.shown
  simp only [Approvals.act]
  split_ifs
  · exact h.of_ui hcurrent hshown h.shown rfl rfl
  · exact h.of_ui hcurrent hshown h.tapped rfl rfl

/-- **A step of the Activity keeps the invariant.** -/
theorem WaitInv.act (h : WaitInv σ o r) (a : UiLabel) : WaitInv (σ.uiNext a) (o.act σ a) r := by
  cases a with
  | sync => exact h.look rfl rfl rfl
  | refresh =>
    have hui : (σ.uiStep .refresh).copy = (σ.ui.sync σ.stateRead).copy ∧
        (σ.uiStep .refresh).screen = σ.ui.screen := by
      unfold System.uiStep Ui.refresh
      dsimp only
      split_ifs <;> exact ⟨rfl, rfl⟩
    exact h.look rfl hui.1 hui.2
  | draw =>
    have hcopy : (σ.uiStep .draw).copy = σ.ui.copy := by
      unfold System.uiStep Ui.draw
      split_ifs <;> rfl
    have hcurrent : o.current = true ↔ Asking (σ.uiStep .draw).copy.g r := by
      rw [hcopy]
      exact h.current
    simp only [Approvals.act]
    split_ifs with hpage
    · refine h.of_ui hcurrent ?_ h.tapped rfl rfl
      rw [show (σ.uiStep .draw).screen = σ.ui.draw.screen from rfl, onScreen_draw hpage, Bool.and_eq_true,
        h.current, and_comm]
    · refine h.of_ui hcurrent ?_ h.tapped rfl rfl
      rw [show (σ.uiStep .draw).screen = σ.ui.screen by simp only [System.uiStep, Ui.draw, if_neg hpage]]
      exact h.shown
  | touch t e => exact h.touch t e
  | transportIntent => exact h.of_ui h.current h.shown h.shown rfl rfl
  | fill k => exact h.of_ui h.current h.shown h.tapped rfl rfl
  | restart =>
    refine h.of_ui ?_ ?_ h.tapped rfl rfl
    · exact iff_of_false Bool.false_ne_true fun hasking => h.action hasking.1.symm
    · refine iff_of_false Bool.false_ne_true ?_
      rintro ⟨sc, hsc, -⟩
      cases hsc

/-! ### The service -/

/-- A worker outside the wait loop keeps the invariant as long as it stays there. -/
theorem ShownInv.serve {σ' : System} (hi : ShownInv (σ, o)) (l : Label)
    (hpc : ∀ r left, σ.worker.pc ≠ .waiting r left) (hpc' : ∀ r left, σ'.worker.pc ≠ .waiting r left) :
    ShownInv (σ', o.serve l σ σ') := by
  have hsame : o.serve l σ σ' = o := by
    unfold Approvals.serve
    split
    · rename_i r left hw
      exact absurd hw (hpc r left)
    · rename_i r left hw _
      exact absurd hw (hpc' r left)
    · rfl
  rw [hsame]
  exact ⟨hi.signed, fun r left hw => absurd hw (hpc' r left)⟩

theorem Approvals.serve_waiting (o : Approvals) (l : Label) {σ' : System} {left : ℕ}
    (hpc : σ.worker.pc = .waiting r left) : o.serve l σ σ' =
      { o with
        granted := o.grant r l.file
        signed := if Signs σ.worker.s σ'.worker.s then (r, (o.grant r l.file).bind Tap.screen) :: o.signed
          else o.signed } := by
  unfold Approvals.serve
  rw [hpc]

/-- The action of a request past the checks is not empty. -/
theorem put_action_ne {e : RoundEnv} (h : e.request = some r) : CStr.put 256 r.ab ≠ .put 256 [] := by
  unfold RoundEnv.request at h
  split_ifs at h
  obtain ⟨smsg, -, h⟩ := Option.bind_eq_some_iff.mp h
  split_ifs at h
  cases hscreen : proofScreen (CStr.put 4096 smsg).val e.proof.clock with
  | error d =>
    rw [hscreen] at h
    cases h
  | ok q =>
    rw [hscreen] at h
    obtain rfl := Option.some.inj h
    obtain ⟨-, -, hallowed, -⟩ := proofScreen_eq_ok hscreen
    intro heq
    have hval : cut 256 (cstr q.ab) = [] := congrArg CStr.val heq
    have hnil : cstr q.ab = [] := by
      simpa [cut] using hval
    rw [hnil] at hallowed
    cases hallowed

/-- A request that begins to wait has no approval yet. -/
theorem ShownInv.waits (hi : ShownInv (σ, o)) {e : RoundEnv} {n : ℕ} {file : Option Bytes}
    (hpc : σ.worker.pc = .linked) (hreq : e.request = some r) (hid : r.requestid.val ≠ []) {σ' : System}
    (hσ' : σ' = { σ with
      worker := ⟨.waiting r 500, proofPend r (polled e σ.worker.s)⟩
      stateBytes := n
      held := none
      command := file }) : ShownInv (σ', o.serve (.round e) σ σ') := by
  subst hσ'
  have hsee {σ' : System} (hpc' : σ'.worker.pc = .waiting r 500) : o.serve (.round e) σ σ' =
      { o with
        current := decide (Asking σ.ui.copy.g r)
        shown := decide (OnScreen σ.ui.screen r)
        tapped := ⟨o.tapped.screen, decide (OnScreen o.tapped.screen r)⟩
        granted := none } := by
    unfold Approvals.serve
    rw [hpc, hpc']
  rw [hsee rfl]
  refine ⟨hi.signed, fun r' left hw => ?_⟩
  cases hw
  exact
    { waiting := ⟨rfl, by rw [← CStr.put_val_self r.requestid]; rfl⟩
      id := hid
      action := put_action_ne hreq
      asking := ⟨rfl, rfl⟩
      file := ⟨_, _, rfl, rfl, rfl⟩
      current := decide_iff _
      shown := decide_iff _
      tapped := decide_iff _
      held := fun h => absurd rfl h
      granted := fun tap htap => by cases htap
      approved := iff_of_false Bool.false_ne_true (lt_irrefl 0) }

/-- What stands after a poll was written under a page the observer knows. -/
theorem WaitInv.grant (h : WaitInv σ o r) (file : Option Bytes) (hheld : σ.held ≠ none) :
    (∀ tap ∈ o.grant r file, tap.Fits r) ∧
      ((o.grant r file).isSome = true ↔ 0 < (trustUiConsumeCommand file σ.worker.s).g.gAuthorityDecision) := by
  rw [decision_pos_iff file h.waiting h.id]
  unfold Approvals.grant
  by_cases happrove : Carries file "AUTH_APPROVE" r.requestid.val
  · rw [if_pos happrove]
    refine ⟨fun tap htap => ?_, iff_of_true rfl (.inl happrove)⟩
    obtain rfl := Option.some.inj htap
    exact h.held hheld
  rw [if_neg happrove]
  by_cases hdeny : Carries file "AUTH_DENY" r.requestid.val
  · rw [if_pos hdeny]
    refine ⟨fun tap htap => absurd htap (Option.not_mem_none tap), iff_of_false Bool.false_ne_true ?_⟩
    rintro (hc | ⟨-, hc⟩)
    exacts [happrove hc, hc hdeny]
  · rw [if_neg hdeny]
    exact ⟨h.granted, h.approved.trans ⟨fun hpos => .inr ⟨hpos, hdeny⟩,
      fun hpos => (hpos.resolve_left happrove).1⟩⟩

theorem stateFile_consume (file : Option Bytes) (s : Service) :
    stateFile (trustUiConsumeCommand file s).log = stateFile s.log := by
  rcases trustUiConsumeCommand_cases file s with hc | ⟨frame, -, hc⟩ <;> rw [hc]
  rfl

/-- **A turn of the wait loop** signs on an approval of the screen that showed the request. -/
theorem ShownInv.turn (hi : ShownInv (σ, o)) {left : ℕ} (hpc : σ.worker.pc = .waiting r (left + 1))
    (p : Poll) (e : ProofEnv) (hheld : σ.held = some p.command) (hok : AsShown (σ, o) (.service (.turn p e)))
    {n : ℕ} {file : Option Bytes} {σ' : System}
    (hσ' : σ' = { σ with
      worker := turnStep r left p e σ.worker.s
      stateBytes := n
      held := none
      command := file }) : ShownInv (σ', o.serve (.turn p e) σ σ') := by
  have hw := hi.wait r (left + 1) hpc
  obtain ⟨hsame, -, -⟩ := trustUiConsumeCommand_spec p.command σ.worker.s
  obtain ⟨hfits, hstands⟩ := hw.grant p.command (by rw [hheld]; exact Option.some_ne_none _)
  rw [o.serve_waiting (.turn p e) hpc, show (Label.turn p e).file = p.command from rfl]
  subst hσ'
  have hturn := turnStep_request r left p e σ.worker.s
  generalize turnStep r left p e σ.worker.s = w at hturn ⊢
  cases hturn with
  | undecided hno =>
    rw [if_neg (unanswered_consume p.command σ.worker.s).not_signs]
    refine ⟨hi.signed, fun r' left' hpc' => ?_⟩
    cases hpc'
    exact
      { waiting := hsame.waiting hw.waiting
        id := hw.id
        action := hw.action
        asking := by rw [hsame]; exact hw.asking
        file := by
          dsimp only
          rw [stateFile_consume]
          exact hw.file
        current := hw.current
        shown := hw.shown
        tapped := hw.tapped
        held := fun h => absurd rfl h
        granted := hfits
        approved := hstands }
  | denied hneg hs =>
    rw [if_neg hs.not_signs]
    exact ⟨hi.signed, fun r' left' hpc' => by cases hpc'⟩
  | approved hpos hlocked =>
    rw [if_pos ((unanswered_consume p.command σ.worker.s).proofSign r e).1]
    refine ⟨fun r' screen hmem => ?_, fun r' left' hpc' => by cases hpc'⟩
    rcases List.mem_cons.mp hmem with heq | hmem
    · obtain ⟨rfl, rfl⟩ := Prod.mk.inj heq
      obtain ⟨tap, htap⟩ := Option.isSome_iff_exists.mp (hstands.mpr hpos)
      dsimp only at htap hfits
      rw [htap] at hfits ⊢
      refine (hfits tap rfl).mp (hok tap ?_)
      unfold unlockedGrant
      dsimp only
      rw [hpc]
      dsimp only
      rw [hlocked]
      exact htap
    · exact hi.signed r' screen hmem

/-- The wait ends without a decision. -/
theorem ShownInv.giveUp (hi : ShownInv (σ, o)) {left : ℕ} (hpc : σ.worker.pc = .waiting r left) {σ' : System}
    {n : ℕ} {file : Option Bytes}
    (hσ' : σ' = { σ with
      worker := giveUpStep σ.worker.s
      stateBytes := n
      held := none
      command := file }) : ShownInv (σ', o.serve .giveUp σ σ') := by
  rw [o.serve_waiting .giveUp hpc, hσ', if_neg (unanswered_giveUp σ.worker.s).not_signs]
  exact ⟨hi.signed, fun r' left' hpc => by cases hpc⟩

/-- The main thread reads no command. -/
theorem not_carries_lifecycle (alive : Bool) (command : String) (rid : Bytes) :
    ¬ Carries (Label.lifecycle alive).file command rid := by
  rintro ⟨frame, hread, -⟩
  cases hread

/-- The service publishes its life while a request may wait. -/
theorem ShownInv.lifecycle (hi : ShownInv (σ, o)) (alive : Bool) {n : ℕ} {file : Option Bytes} {σ' : System}
    (hσ' : σ' = { σ with
      worker := ⟨σ.worker.pc, lifecycleStep alive σ.worker.s⟩
      stateBytes := n
      command := file }) : ShownInv (σ', o.serve (.lifecycle alive) σ σ') := by
  subst hσ'
  cases hpc : σ.worker.pc with
  | waiting r left =>
    have hw := hi.wait r left hpc
    have hgrant : o.grant r (Label.lifecycle alive).file = o.granted := by
      rw [Approvals.grant, if_neg (not_carries_lifecycle alive _ _), if_neg (not_carries_lifecycle alive _ _)]
    rw [o.serve_waiting (.lifecycle alive) hpc, hgrant]
    dsimp only
    rw [if_neg (unanswered_lifecycle alive σ.worker.s).not_signs]
    refine ⟨hi.signed, fun r' left' hpc' => ?_⟩
    cases hpc'
    exact { hw with file := ⟨_, _, rfl, hw.asking⟩ }
  | _ =>
    rw [← hpc]
    exact hi.serve (.lifecycle alive) (by simp [hpc]) (by simp [hpc])

/-! ### Runs -/

/-- **One step keeps the invariant.** -/
theorem ShownInv.step {l : SysLabel} {p q : System × Approvals} (hi : ShownInv p) (hok : AsShown p l)
    (hnext : watch (sysNext c) Approvals.see l p = some q) : ShownInv q := by
  obtain ⟨σ, o⟩ := p
  obtain ⟨σ', o'⟩ := q
  obtain ⟨hsys, hsee⟩ := watch_eq_some.mp hnext
  clear hnext
  dsimp only at hsys hsee
  subst hsee
  cases l with
  | ui a =>
    cases hsys
    refine ⟨fun r screen hmem => hi.signed r screen ?_, fun r left hpc => (hi.wait r left hpc).act a⟩
    have hsigned : (o.act σ a).signed = o.signed := by
      unfold Approvals.act
      split <;> first | rfl | (split_ifs <;> rfl)
    exact hsigned ▸ hmem
  | fill k =>
    cases hsys
    exact ⟨hi.signed, fun r left hpc => { hi.wait r left hpc with }⟩
  | look =>
    obtain ⟨-, rfl⟩ := sysNext_look.mp hsys
    refine ⟨hi.signed, fun r left hpc => ?_⟩
    have hw := hi.wait r left hpc
    exact { hw with held := fun _ => hw.tapped }
  | service l =>
    obtain ⟨hheld, w, hw, hσ'⟩ := sysNext_service.mp hsys
    obtain ⟨⟨pc, s⟩, stateBytes, command, commandBytes, held, ui⟩ := σ
    dsimp only at hw hheld
    have hrest (hl : l.waits = false) (hpc : ∀ r left, pc ≠ .waiting r left) :
        ShownInv (σ', Approvals.serve o l _ σ') :=
      hi.serve l hpc (by rw [hσ']; exact pc_ne_waiting hw hl)
    cases step_of_next hw with
    | lifecycle alive pc s => exact hi.lifecycle alive hσ'
    | round e s hforget hreconnect =>
      have hround := roundStep_request e s
      generalize roundStep e s = w at hround hσ'
      cases hround with
      | unanswered hpc' _ _ => exact hi.serve (.round e) (by simp) (by rw [hσ']; exact hpc')
      | waits hreq hx hid => exact hi.waits rfl hreq hid hσ'
      | signs hreq hx hlocked => exact hi.serve (.round e) (by simp) (by rw [hσ']; simp)
    | turn p e r left s => exact hi.turn rfl p e hheld hok hσ'
    | giveUp r left s => exact hi.giveUp rfl hσ'
    | _ => exact hrest rfl (by simp)

theorem shownInv_of_run {p₀ : Prefs} {p : System × Approvals}
    (h : Run (watch (sysNext c) Approvals.see) AsShown (System.init p₀, {}) p) : ShownInv p := by
  refine h.invariant ⟨fun r screen hmem => ?_, fun r left hpc => ?_⟩ fun t l u hi hok hnext =>
    hi.step hok hnext
  · exact absurd hmem List.not_mem_nil
  · cases hpc

/-- **The condition is exact**: the first step that breaks it signs a request that its screen did not
show. -/
theorem exists_signed_not_onScreen {p₀ : Prefs} {l : SysLabel} {p q : System × Approvals}
    (h : Run (watch (sysNext c) Approvals.see) AsShown (System.init p₀, {}) p)
    (hno : ¬ AsShown p l) (hnext : watch (sysNext c) Approvals.see l p = some q) :
    ∃ r screen, (r, screen) ∈ q.2.signed ∧ ¬ OnScreen screen r := by
  have hi := shownInv_of_run h
  obtain ⟨σ, o⟩ := p
  obtain ⟨σ', o'⟩ := q
  obtain ⟨hsys, hsee⟩ := watch_eq_some.mp hnext
  clear hnext
  dsimp only at hsys hsee
  subst hsee
  unfold AsShown at hno
  push Not at hno
  obtain ⟨tap, htap, hbad⟩ := hno
  unfold unlockedGrant at htap
  split at htap
  · rename_i poll e r left hpc
    have hlocked : poll.locked = false := by
      by_contra hlocked
      rw [if_pos (by simpa using hlocked)] at htap
      cases htap
    rw [if_neg (by rw [hlocked]; exact Bool.false_ne_true)] at htap
    have hw := hi.wait r left hpc
    obtain ⟨hheld, w, hnext, rfl⟩ := sysNext_service.mp hsys
    obtain ⟨hfits, hstands⟩ := hw.grant poll.command (by rw [hheld]; exact Option.some_ne_none _)
    have hpos := hstands.mp (Option.isSome_iff_exists.mpr ⟨tap, htap⟩)
    refine ⟨r, tap.screen, ?_, fun hshown => hbad ((hfits tap htap).mpr hshown)⟩
    dsimp only [Approvals.see] at htap hpos ⊢
    rw [o.serve_waiting (.turn poll e) hpc]
    obtain ⟨⟨pc, s⟩, stateBytes, command, commandBytes, held, ui⟩ := σ
    dsimp only at hpc hnext hpos
    subst hpc
    cases step_of_next hnext with
    | turn poll e r left s =>
      have hturn := turnStep_request r left poll e s
      generalize turnStep r left poll e s = w at hturn ⊢
      cases hturn with
      | undecided hwait => exact absurd ⟨hpos, hlocked⟩ hwait
      | denied hneg _ => exact absurd hpos (not_lt.mpr hneg.le)
      | approved _ _ =>
        rw [if_pos ((unanswered_consume poll.command s).proofSign r e).1,
          show o.grant r (Label.turn poll e).file = some tap from htap]
        exact List.mem_cons_self
  · cases htap

def storedHost : Prefs := { trustedHostsV2 := some (lit "aa") }

/-- A step of the worker, after the look that comes before it. -/
def Label.looking (l : Label) : List SysLabel :=
  match l with
  | .consume _ | .idle _ | .turn _ _ => [.look, .service l]
  | _ => [.service l]

/-- A stored host connects, and the session is established. -/
def establishing : List SysLabel :=
  (startLabel :: toSession none ++
    [helloLabel "aa" "desk", .check, answerLabel "AUTH OK\nHOST_SIG 01\nEND\n"]).flatMap Label.looking

/-- The host sends a proof request for an action given in hex. -/
def requestLabel (id action mode : String) (locked : Bool) : SysLabel :=
  .service (.round {
    chunks := [lit "PROOF_REQUEST\nACTION_HEX " ++ lit action ++
      lit "\nRESOURCE_HEX 72\nNONCE n\nISSUED 100\nEXPIRES 110\nREQUEST_ID " ++ lit id ++ lit "\nMODE " ++
      lit mode ++ lit "\nEND\n"]
    proof := { clock := some 100, locked, keystore := fun _ => some [9] } })

/-- The refresh thread finds the whole state and draws. -/
def refreshing : List SysLabel := [.fill 8000, .ui .refresh, .ui .draw]

/-- The user touches a part: `handle_touch` looks at the state file, acts, and writes its command. -/
def touching (r : Rect) : List SysLabel :=
  [.fill 8000, .ui .sync, .ui (.touch (fun r' => r' = r) {}), .ui (.fill 900)]

end ZorinTrust
