import ZorinTrust.AgentServe

/-!
# Whole runs of the shell agent

`main` from the first call on.  `agent_keeps` says of every run, for every answer of the device and every
request, that each call is one `kernel` allows; `device_after_token` that the device is only looked at for
a client that has presented the token; `report_whole` which reports always reach the client in full.
-/

namespace ZorinTrust.Bridge

open CText Numeral Calls Calls.Monitor

variable {s : Proc} {g : Agent} {admits : Bytes → Prop}

/-! ### The port -/

theorem le_digitsVal : ∀ (ds : Bytes) (v : ℕ), v ≤ digitsVal v ds
  | [], _ => le_rfl
  | c :: ds, v => by
    have h := le_digitsVal ds (v * 10 + (c.toNat - 48))
    show v ≤ digitsVal (v * 10 + (c.toNat - 48)) ds
    omega

theorem portDigits_eq : ∀ (text : Bytes) (v : ℕ), v ≤ 65535 → portDigits text v =
    if 1 ≤ digitsVal v (text.takeWhile isDigit) ∧ digitsVal v (text.takeWhile isDigit) ≤ 65535 then
      digitsVal v (text.takeWhile isDigit) else 47471
  | [], v, hv => by
    simp only [portDigits, List.takeWhile_nil, digitsVal, List.foldl_nil]
    exact if_congr ⟨fun h => ⟨h, hv⟩, fun h => h.1⟩ rfl rfl
  | c :: text, v, hv => by
    rw [portDigits]
    by_cases hc : isDigit c = true
    · rw [if_pos hc, List.takeWhile_cons_of_pos hc]
      have hcons : digitsVal v (c :: text.takeWhile isDigit) =
          digitsVal (v * 10 + (c.toNat - 48)) (text.takeWhile isDigit) := rfl
      rw [hcons]
      dsimp only
      split_ifs with hlarge h h
      · have := le_digitsVal (text.takeWhile isDigit) (v * 10 + (c.toNat - 48))
        omega
      · rfl
      · rw [portDigits_eq text _ (by omega), if_pos h]
      · rw [portDigits_eq text _ (by omega), if_neg h]
    · rw [if_neg hc, List.takeWhile_cons_of_neg hc]
      exact if_congr ⟨fun h => ⟨h, hv⟩, fun h => h.1⟩ rfl rfl

/-- **`parse_port`** is the decimal number at the start of its text, when that is a port. -/
theorem parsePort_eq (text : Bytes) : parsePort text =
    if 1 ≤ digitsVal 0 (text.takeWhile isDigit) ∧ digitsVal 0 (text.takeWhile isDigit) ≤ 65535 then
      digitsVal 0 (text.takeWhile isDigit) else 47471 := portDigits_eq text 0 (Nat.zero_le _)

theorem parsePort_range (text : Bytes) : 1 ≤ parsePort text ∧ parsePort text ≤ 65535 := by
  rw [parsePort_eq]
  split_ifs with h
  · exact h
  · exact ⟨by norm_num, by norm_num⟩

theorem portArgs_range (args : List Bytes) {port : ℕ} (h : 1 ≤ port ∧ port ≤ 65535) :
    1 ≤ portArgs args port ∧ portArgs args port ≤ 65535 := by
  induction args, port using portArgs.induct with
  | case1 port => exact h
  | case2 port a => exact h
  | case3 a b args port ha ih => rw [portArgs, if_pos ha]; exact ih h
  | case4 a b args port ha hb ih => rw [portArgs, if_neg ha, if_pos hb]; exact ih h
  | case5 a b args port ha hb hc ih =>
    rw [portArgs, if_neg ha, if_neg hb, if_pos hc]
    exact ih (parsePort_range b)
  | case6 a b args port ha hb hc hd ih =>
    rw [portArgs, if_neg ha, if_neg hb, if_neg hc, if_pos hd]
    exact ih h
  | case7 a b args port ha hb hc hd ih =>
    rw [portArgs, if_neg ha, if_neg hb, if_neg hc, if_neg hd]
    exact ih h

/-! ### Starting -/

/-- The process before `main`. -/
def Proc.boot : Proc where
  fds fd := if 0 ≤ fd ∧ fd ≤ 2 then some .stdio else none
  refs := 0
  children := []
  lost := []
  inChild := false
  request := none
  sent := []

/-- The requests that let the agent look at the device. -/
def Admits (g : Agent) (req : Bytes) : Prop :=
  g.gRequireAuth = true → 16 ≤ g.gToken.val.length ∧
    ∃ c : AgentCommand, c ≠ .hello ∧ Presents g.gToken.val (trim (cstr (cut 512 req))) c.name

theorem agentStart_cases (uid : ℕ) (args : List Bytes) :
    agentStart uid args = .error 13 ∨ agentStart uid args = .error 14 ∨
      agentStart uid args = .ok (agentArgs args {}) ∧
        ((agentArgs args {}).gRequireAuth = true → 16 ≤ (agentArgs args {}).gToken.val.length) := by
  unfold agentStart
  dsimp only
  split_ifs with h13 h14
  · exact .inl rfl
  · exact .inr (.inl rfl)
  · exact .inr (.inr ⟨rfl, fun h => not_lt.mp fun hlt => h14 ⟨h, hlt⟩⟩)

theorem wp_socket {Q : ℤ → Proc → Prop} (hparent : s.inChild = false) (hfail : ∀ fd < 0, Q fd s)
    (hopen : ∀ fd, 0 ≤ fd → s.fds fd = none → Q fd (s.opened fd .socket)) :
    (kernel admits).wp (sys .socket) Q s := by
  refine ⟨hparent, fun (fd : ℤ) hfree => ?_⟩
  show Q fd (if 0 ≤ fd then s.opened fd .socket else s)
  rcases lt_or_ge fd 0 with h | h
  · rw [if_neg (not_le.mpr h)]
    exact hfail fd h
  · rw [if_pos h]
    exact hopen fd h (hfree h)

/-- The calls that set the listening socket up. -/
theorem restores_setReuse {fd : ℤ} (hparent : s.inChild = false) (hfd : s.fds fd = some .socket) :
    (kernel admits).Restores s (sys (.setReuse fd)) fun _ => True :=
  ⟨⟨hparent, hfd⟩, fun _ _ => ⟨rfl, trivial⟩⟩

theorem restores_bindPort {fd : ℤ} {port : ℕ} (hparent : s.inChild = false)
    (hfd : s.fds fd = some .socket) (hport : 1 ≤ port ∧ port < 2 ^ 16) :
    (kernel admits).Restores s (sys (.bindPort fd 0x0100007f port)) fun _ => True :=
  ⟨⟨hparent, hfd, rfl, hport⟩, fun _ _ => ⟨rfl, trivial⟩⟩

theorem restores_listen {fd : ℤ} (hparent : s.inChild = false) (hfd : s.fds fd = some .socket) :
    (kernel admits).Restores s (sys (.listen fd)) fun _ => True :=
  ⟨⟨hparent, hfd⟩, fun _ _ => ⟨rfl, trivial⟩⟩

/-- The codes `main` can return. -/
def exitCodes : List ℤ := [10, 11, 12, 13, 14]

/-- **`main`** returns only when it cannot start. -/
theorem wp_agentMain (args : List Bytes) (fuel turns : ℕ) :
    (kernel (Admits (agentArgs args {}))).wp (agentMain args fuel turns) (fun code _ => code ∈ exitCodes)
      Proc.boot := by
  unfold agentMain
  refine wp_bind.mpr (restores_getuid.wp fun uid _ => ?_)
  obtain h | h | ⟨h, htoken⟩ := agentStart_cases uid.toNat args
  · rw [h]
    exact wp_bind.mpr (wp_write rfl (.inr (by decide)) (by simp [exitCodes]))
  · rw [h]
    exact wp_bind.mpr (wp_write rfl (.inr (by decide)) (by simp [exitCodes]))
  · rw [h]
    dsimp only
    have hadmits : ∀ req c, c ≠ .hello → handleClient (agentArgs args {}) req = .command c →
        Admits (agentArgs args {}) req := fun req c hc hreq hauth =>
      ⟨htoken hauth, c, hc, (handleClient_iff_presents hauth hc).mp hreq⟩
    have hport := portArgs_range args (⟨by norm_num, by norm_num⟩ : 1 ≤ 47471 ∧ 47471 ≤ 65535)
    refine wp_bind.mpr (wp_socket rfl (fun fd hfd => ?_) fun fd hfd hfree => ?_)
    · rw [if_pos hfd]
      simp [exitCodes]
    · rw [if_neg (not_lt.mpr hfd)]
      have hopen : (Proc.boot.opened fd .socket).fds fd = some .socket := opened_self
      refine wp_bind.mpr (Restores.wp (restores_setReuse rfl hopen) fun _ _ => ?_)
      refine wp_bind.mpr (Restores.wp (restores_bindPort rfl hopen (by omega)) fun bound _ => ?_)
      by_cases hbound : bound ≠ 0
      · rw [if_pos hbound]
        simp [exitCodes]
      rw [if_neg hbound]
      refine wp_bind.mpr (Restores.wp (restores_listen rfl hopen) fun listening _ => ?_)
      by_cases hlisten : listening ≠ 0
      · rw [if_pos hlisten]
        simp [exitCodes]
      rw [if_neg hlisten]
      refine wp_bind.mpr (restores_getuid.wp fun uid _ => ?_)
      refine wp_bind.mpr (restores_getpid.wp fun pid _ => ?_)
      have hout : (Proc.boot.opened fd .socket).fds 1 = some .stdio := by
        have hne : (1 : ℤ) ≠ fd := by
          rintro rfl
          exact absurd hfree (by decide)
        exact (opened_of_ne hne).trans rfl
      refine wp_bind.mpr (wp_write rfl (.inr hout) ?_)
      refine wp_mono (fun _ _ h => h.elim) (wp_serve fuel fd hadmits turns ⟨fun x => ?_, rfl, rfl, rfl⟩)
      by_cases hx : x = fd
      · subst hx
        rw [if_pos rfl]
        exact opened_self
      · rw [if_neg hx]
        exact opened_of_ne hx

/-- The arguments of the start script, and what the app sends for `STATUS`. -/
def startArgs : List Bytes := [lit "--token", lit "0123456789abcdef"]

def statusWire : Bytes :=
  cut 384 (lit "AUTH " ++ (agentArgs startArgs {}).gToken.val ++ Lines.sp :: (lit "STATUS" ++ [10]))

/-- A run up to the first file of a `STATUS`. -/
def startTrace : List (Σ op, Sys.Answer op) :=
  [⟨.getuid, (2000 : ℤ)⟩, ⟨.socket, (3 : ℤ)⟩, ⟨.setReuse 3, ()⟩, ⟨.bindPort 3 0x0100007f 47471, (0 : ℤ)⟩,
    ⟨.listen 3, (0 : ℤ)⟩, ⟨.getuid, (2000 : ℤ)⟩, ⟨.getpid, (77 : ℤ)⟩,
    ⟨.write 1 (banner (agentArgs startArgs {}) 47471 2000 77), ()⟩, ⟨.accept 3, (4 : ℤ)⟩,
    ⟨.read 4 511, some statusWire⟩, ⟨.openFile "/proc/self/status" .rdonly, (5 : ℤ)⟩]

theorem startTrace_exec : Exec (agentMain startArgs 1 1) startTrace none := by
  have hstart : agentStart (Int.toNat 2000) startArgs = .ok (agentArgs startArgs {}) := by
    rw [startArgs, agentStart_token _ _ (by decide) (by decide) (by decide)]
    rfl
  have hport : portArgs startArgs 47471 = 47471 := by decide
  have hreq : handleClient (agentArgs startArgs {}) statusWire = .command .status :=
    (handleClient_iff_presents rfl (by decide)).mpr (presents_wire _ .status (by decide))
  have hfirst : Exec (handleConnection (agentArgs startArgs {}) 1 4)
      [⟨.read 4 511, some statusWire⟩, ⟨.openFile "/proc/self/status" .rdonly, (5 : ℤ)⟩] none := by
    unfold handleConnection
    refine Exec.perform_bind ?_
    dsimp only
    rw [hreq]
    exact .call (.stop _)
  unfold agentMain
  refine Exec.perform_bind ?_
  rw [hstart]
  refine Exec.perform_bind ?_
  rw [if_neg (by decide), hport]
  refine Exec.perform_bind (Exec.perform_bind ?_)
  rw [if_neg (by decide)]
  refine Exec.perform_bind ?_
  rw [if_neg (by decide)]
  refine Exec.perform_bind (Exec.perform_bind (Exec.perform_bind ?_))
  refine Exec.perform_bind ?_
  rw [if_neg (by decide)]
  exact hfirst.bind_none

theorem startTrace_answered :
    (kernel (Admits (agentArgs startArgs {}))).Answered Proc.boot startTrace := by
  have hwire : statusWire.length < 384 := length_cut_lt (by norm_num) _
  simp only [startTrace, Answered, kernel, IsLong]
  refine ⟨by norm_num, by decide, trivial, trivial, trivial, by norm_num, by norm_num, trivial, by decide, ?_,
    by decide, trivial⟩
  rintro t ⟨⟩
  exact hwire.le.trans (by norm_num)

/-- **What the agent keeps to.**  In every run of `main`, whatever the clients send and the device
answers, every call is one that `kernel` allows when it is made, and the run ends only with a code that
says why the agent could not start. -/
theorem agent_keeps (args : List Bytes) (fuel turns : ℕ) {tr : List (Σ op, Sys.Answer op)} {o : Option ℤ}
    (hrun : Exec (agentMain args fuel turns) tr o)
    (hans : (kernel (Admits (agentArgs args {}))).Answered Proc.boot tr) :
    (∀ pre e post, tr = pre ++ e :: post →
      (kernel (Admits (agentArgs args {}))).allowed ((kernel (Admits (agentArgs args {}))).after Proc.boot pre)
        e.1) ∧ ∀ code, o = some code → code ∈ exitCodes := by
  obtain ⟨hsafe, hend⟩ := wp_sound (wp_agentMain args fuel turns) hrun hans
  refine ⟨?_, hend⟩
  rintro pre e post rfl
  exact hsafe.allowed

/-- The first file of a `STATUS` is opened for a request that was admitted. -/
theorem agent_keeps_status : (kernel (Admits (agentArgs startArgs {}))).allowed
    ((kernel (Admits (agentArgs startArgs {}))).after Proc.boot (startTrace.take 10))
      (.openFile "/proc/self/status" .rdonly) :=
  (agent_keeps startArgs 1 1 startTrace_exec startTrace_answered).1 (startTrace.take 10)
    ⟨.openFile "/proc/self/status" .rdonly, (5 : ℤ)⟩ [] rfl

/-! ### The token comes first -/

/-- The calls that tell something of the device or change it. -/
def Looks : Sys → Prop
  | .getgid | .gettid | .getpagesize | .uname | .openFile _ _ | .access _ | .readlink _ _ | .property _
  | .checkService _ | .pipe2 | .fork => True
  | _ => False

def IsAccept : Sys → Prop
  | .accept _ => True
  | _ => False

theorem Looks.admitted {op : Sys} (h : Looks op) (hallowed : (kernel admits).allowed s op) :
    s.Admitted admits := by
  cases op with
  | getgid | gettid | getpagesize | uname => exact hallowed
  | openFile | access | readlink | property | checkService | pipe2 | fork => exact hallowed.1
  | _ => exact h.elim

/-- The request a process serves is what it read last from a socket, since it accepted last. -/
theorem request_next {e : Σ op, Sys.Answer op} {req : Bytes}
    (h : ((kernel admits).next s e.1 e.2).request = some req) :
    (∃ c n, e = ⟨.read c n, some req⟩ ∧ s.fds c = some .socket) ∨ s.request = some req ∧ ¬ IsAccept e.1 := by
  obtain ⟨op, r⟩ := e
  cases op with
  | read c n =>
    by_cases hfd : s.fds c = some .socket
    · rw [next_read hfd] at h
      obtain rfl : r = some req := h
      exact .inl ⟨c, n, rfl, hfd⟩
    · have hnext : (kernel admits).next s (.read c n) r = s := if_neg hfd
      rw [hnext] at h
      exact .inr ⟨h, id⟩
  | accept c =>
    have hnone : ((kernel admits).next s (.accept c) r).request = none := by
      show (if 0 ≤ r then (s.asked none).opened r .socket else s.asked none).request = none
      split_ifs <;> rfl
    rw [hnone] at h
    cases h
  | openFile path mode =>
    refine .inr ⟨?_, id⟩
    change (if 0 ≤ r then s.opened r .file else s).request = some req at h
    split_ifs at h <;> exact h
  | socket =>
    refine .inr ⟨?_, id⟩
    change (if 0 ≤ r then s.opened r .socket else s).request = some req at h
    split_ifs at h <;> exact h
  | checkService name =>
    refine .inr ⟨?_, id⟩
    change (if r then { s with refs := s.refs + 1 } else s : Proc).request = some req at h
    split_ifs at h <;> exact h
  | fork =>
    refine .inr ⟨?_, id⟩
    change (if r = 0 then s.child else if 0 < r then s.forked r else s).request = some req at h
    split_ifs at h <;> exact h
  | probe kind =>
    refine .inr ⟨?_, id⟩
    change (if kind ≤ 6 ∧ 0 ≤ r then s.opened r .probed else s).request = some req at h
    split_ifs at h <;> exact h
  | pipe2 | waitpid =>
    cases r with
    | none => exact .inr ⟨h, id⟩
    | some _ => exact .inr ⟨h, id⟩
  | _ => exact .inr ⟨h, id⟩

theorem exists_request {req : Bytes} : ∀ {tr : List (Σ op, Sys.Answer op)},
    ((kernel admits).after Proc.boot tr).request = some req →
    ∃ pre c n mid, tr = pre ++ ⟨.read c n, some req⟩ :: mid ∧
      ((kernel admits).after Proc.boot pre).fds c = some .socket ∧ ∀ e ∈ mid, ¬ IsAccept e.1 := by
  intro tr
  induction tr using List.reverseRecOn with
  | nil => exact fun h => nomatch h
  | append_singleton tr e ih =>
    intro h
    rw [after_append] at h
    obtain ⟨c, n, rfl, hfd⟩ | ⟨h, haccept⟩ := request_next h
    · exact ⟨tr, c, n, [], rfl, hfd, by simp⟩
    · obtain ⟨pre, c, n, mid, rfl, hfd, hmid⟩ := ih h
      refine ⟨pre, c, n, mid ++ [e], by simp, hfd, fun x hx => ?_⟩
      rcases List.mem_append.mp hx with hx | hx
      · exact hmid x hx
      · rw [List.mem_singleton.mp hx]
        exact haccept

/-- **The token comes first.**  With authentication required, whatever the agent does to look at the device
answers a request that the client now connected has sent, and that presents the token the agent was
started with. -/
theorem device_after_token (args : List Bytes) (fuel turns : ℕ) {tr pre post : List (Σ op, Sys.Answer op)}
    {o : Option ℤ} {e : Σ op, Sys.Answer op} (hauth : (agentArgs args {}).gRequireAuth = true)
    (hrun : Exec (agentMain args fuel turns) tr o)
    (hans : (kernel (Admits (agentArgs args {}))).Answered Proc.boot tr) (hsplit : tr = pre ++ e :: post)
    (hlooks : Looks e.1) :
    16 ≤ (agentArgs args {}).gToken.val.length ∧
    ∃ pre₁ c n req mid, pre = pre₁ ++ ⟨.read c n, some req⟩ :: mid ∧
      ((kernel (Admits (agentArgs args {}))).after Proc.boot pre₁).fds c = some .socket ∧
      (∀ e ∈ mid, ¬ IsAccept e.1) ∧
      ∃ cmd : AgentCommand, cmd ≠ .hello ∧
        Presents (agentArgs args {}).gToken.val (trim (cstr (cut 512 req))) cmd.name := by
  subst hsplit
  obtain ⟨hsafe, -⟩ := wp_sound (wp_agentMain args fuel turns) hrun hans
  obtain ⟨req, hreq, hadmits⟩ := hlooks.admitted hsafe.allowed
  obtain ⟨hlen, cmd, hcmd, hpresents⟩ := hadmits hauth
  obtain ⟨pre₁, c, n, mid, rfl, hfd, hmid⟩ := exists_request hreq
  exact ⟨hlen, pre₁, c, n, req, mid, rfl, hfd, hmid, cmd, hcmd, hpresents⟩

theorem device_after_token_status : 16 ≤ (agentArgs startArgs {}).gToken.val.length ∧
    ∃ pre₁ c n req mid, startTrace.take 10 = pre₁ ++ ⟨.read c n, some req⟩ :: mid ∧
      ((kernel (Admits (agentArgs startArgs {}))).after Proc.boot pre₁).fds c = some .socket ∧
      (∀ e ∈ mid, ¬ IsAccept e.1) ∧
      ∃ cmd : AgentCommand, cmd ≠ .hello ∧
        Presents (agentArgs startArgs {}).gToken.val (trim (cstr (cut 512 req))) cmd.name :=
  @device_after_token startArgs 1 1 _ _ [] _ ⟨.openFile "/proc/self/status" .rdonly, (5 : ℤ)⟩
    rfl startTrace_exec startTrace_answered rfl trivial

/-! ### What the client gets -/

/-- The heading of a report and what it gathers. -/
def reportParts (fuel : ℕ) : AgentCommand → Option (Bytes × AgentM (List Append))
  | .hello | .services => none
  | .status => some ([], statusCalls)
  | .kernel => some ([], kernelCalls)
  | .network => some ([], networkCalls fuel)
  | .security => some ([], securityCalls)
  | .filesystem => some ([], filesystemCalls fuel)
  | .process => some ([], processCalls)
  | .report => some (reportHeading, reportCalls)
  | .probes => some ([], probesCalls)
  | .procfs => some ([], procfsCalls fuel)

/-- The reports whose values can be longer than their buffer. -/
def MayBeCut (c : AgentCommand) : Prop := c = .kernel ∨ c = .filesystem ∨ c = .process

variable {fd : ℤ}

/-- A program that gathers and one that sends, in one run; `K` is what the first leaves of the process. -/
theorem sent_of_run {p : AgentM (List Append)} {q : List Append → AgentM Unit} {K : Proc → Prop}
    {R : List Append → Prop} {T : List Append → Bytes → Prop}
    (hp : (kernel admits).wp p (fun as t => K t ∧ R as) s)
    (hq : ∀ as t, K t → R as →
      (kernel admits).wp (q as) (fun _ s' => ∃ text, s' = t.wrote fd text ∧ T as text) t)
    {tr : List (Σ op, Sys.Answer op)} (hrun : Exec (p >>= q) tr (some ()))
    (hans : (kernel admits).Answered s tr) :
    ∃ tr₁ tr₂ as t text, tr = tr₁ ++ tr₂ ∧ Exec p tr₁ (some as) ∧ K t ∧ R as ∧
      (kernel admits).after s tr = t.wrote fd text ∧ T as text := by
  obtain ⟨tr₁, tr₂, as, rfl, h₁, h₂⟩ := hrun.of_bind
  rw [answered_append] at hans
  obtain ⟨hkept, has⟩ := (wp_sound hp h₁ hans.1).2 as rfl
  obtain ⟨text, hwrote, htext⟩ := (wp_sound (hq as _ hkept has) h₂ hans.2).2 () rfl
  exact ⟨tr₁, tr₂, as, _, text, rfl, h₁, hkept, has, (after_append ..).trans hwrote, htext⟩

/-- **Reports arrive whole.**  A run of a command hands exactly one text to the client's socket and leaves
the process as it was, but for children of PROBES that could not be waited for.  The text is a beginning of
the heading and the lines of what the run gathered, and it is all of them for every report but KERNEL,
FILESYSTEM and PROCESS, however long the files of the device are. -/
theorem report_whole (fuel : ℕ) {c : AgentCommand} {heading : Bytes} {p : AgentM (List Append)}
    {tr : List (Σ op, Sys.Answer op)} (hparts : reportParts fuel c = some (heading, p))
    (hparent : s.inChild = false) (hfd : s.fds fd = some .socket) (hadm : s.Admitted admits)
    (hrun : Exec (runCommand g fuel fd c) tr (some ())) (hans : (kernel admits).Answered s tr) :
    ∃ tr₁ tr₂ as t text, tr = tr₁ ++ tr₂ ∧ Exec p tr₁ (some as) ∧ (s.Left t ∧ (c ≠ .probes → t = s)) ∧
      (kernel admits).after s tr = t.wrote fd text ∧ text <+: heading ++ ideal as ∧
        (¬ MayBeCut c → text = heading ++ ideal as) := by
  have : Fact (s.Admitted admits) := ⟨hadm⟩
  have hsent : ∀ {p : AgentM (List Append)} {cap n : ℕ}, 3 ≤ cap → cap < 2 ^ 31 →
      (¬ MayBeCut c → n + 2 < cap) →
      (kernel admits).wp p (fun as t => (s.Left t ∧ (c ≠ .probes → t = s)) ∧ Rows n as) s →
      Exec (p >>= sendReport fd cap) tr (some ()) → ∃ tr₁ tr₂ as t text, tr = tr₁ ++ tr₂ ∧
        Exec p tr₁ (some as) ∧ (s.Left t ∧ (c ≠ .probes → t = s)) ∧
        (kernel admits).after s tr = t.wrote fd text ∧ text <+: [] ++ ideal as ∧
          (¬ MayBeCut c → text = [] ++ ideal as) := by
    intro p cap n h3 hint hfit hp hrun
    have hsend : ∀ as t, s.Left t ∧ (c ≠ .probes → t = s) → Rows n as → (kernel admits).wp
        (sendReport fd cap as) (fun _ s' => ∃ text, s' = t.wrote fd text ∧ Sends cap n as text) t := by
      rintro as t ⟨⟨pids, rfl⟩, -⟩ has
      exact wp_sendReport (s := s.left pids) hparent hfd h3 hint has
    obtain ⟨tr₁, tr₂, as, t, text, htr, h₁, hleft, -, hafter, hprefix, htext⟩ :=
      sent_of_run hp hsend hrun hans
    exact ⟨tr₁, tr₂, as, t, text, htr, h₁, hleft, hafter, hprefix, fun hc => htext (hfit hc)⟩
  have kept : ∀ {p : AgentM (List Append)} {n : ℕ}, (kernel admits).Restores s p (Rows n) →
      (kernel admits).wp p (fun as t => (s.Left t ∧ (c ≠ .probes → t = s)) ∧ Rows n as) s :=
    fun hp => hp.wp fun _ has => ⟨⟨.refl s, fun _ => rfl⟩, has⟩
  cases c with
  | hello | services => cases hparts
  | status =>
    cases hparts
    exact hsent (by norm_num) (by norm_num) (fun _ => by norm_num)
      (kept (restores_statusCalls.mono fun as ⟨_, _, _, _, h⟩ => h.rows)) hrun
  | kernel =>
    cases hparts
    exact hsent (by norm_num) (by norm_num) (fun h => absurd (.inl rfl) h) (kept restores_kernelCalls) hrun
  | network =>
    cases hparts
    exact hsent (by norm_num) (by norm_num) (fun _ => by norm_num) (kept (restores_networkCalls fuel)) hrun
  | security =>
    cases hparts
    exact hsent (by norm_num) (by norm_num) (fun _ => by norm_num) (kept restores_securityCalls) hrun
  | filesystem =>
    cases hparts
    exact hsent (by norm_num) (by norm_num) (fun h => absurd (.inr (.inl rfl)) h)
      (kept (restores_filesystemCalls fuel)) hrun
  | process =>
    cases hparts
    exact hsent (by norm_num) (by norm_num) (fun h => absurd (.inr (.inr rfl)) h)
      (kept restores_processCalls) hrun
  | report =>
    cases hparts
    have hsend : ∀ as t, t = s → Rows 1000 as → (kernel admits).wp (sendHeaded fd as)
        (fun _ s' => ∃ text, s' = t.wrote fd text ∧ text = reportHeading ++ ideal as) t := by
      rintro as t rfl has
      exact wp_mono (fun _ s' hs' => ⟨_, hs', rfl⟩) (wp_sendHeaded hparent hfd has)
    obtain ⟨tr₁, tr₂, as, t, text, htr, h₁, rfl, -, hafter, htext⟩ :=
      sent_of_run restores_reportCalls hsend hrun hans
    exact ⟨tr₁, tr₂, as, t, text, htr, h₁, ⟨.refl t, fun _ => rfl⟩, hafter, htext ▸ List.prefix_rfl,
      fun _ => htext⟩
  | probes =>
    cases hparts
    exact hsent (by norm_num) (by norm_num) (fun _ => by norm_num)
      (wp_mono (fun _ t ⟨hleft, has⟩ => ⟨⟨hleft, fun h => absurd rfl h⟩, has⟩) (wp_probesCalls hparent)) hrun
  | procfs =>
    cases hparts
    exact hsent (by norm_num) (by norm_num) (fun _ => by norm_num) (kept (restores_procfsCalls fuel)) hrun

/-- A run of the probes in which no pipe can be created. -/
def noPipes : List (Σ op, Sys.Answer op) :=
  (List.replicate 9 [(⟨.pipe2, none⟩ : Σ op, Sys.Answer op), ⟨.errno, (24 : ℤ)⟩]).flatten

theorem noPipes_exec : ∃ as, Exec probesCalls noPipes (some as) :=
  ⟨_, .call <| .call <| .call <| .call <| .call <| .call <| .call <| .call <| .call <| .call <| .call <|
    .call <| .call <| .call <| .call <| .call <| .call <| .call <| .done _⟩

/-- The process that serves them. -/
def probing : Proc := (Proc.boot.opened 4 .socket).asked (some [])

theorem noPipes_answered : (kernel fun _ => True).Answered probing noPipes := by
  simp [noPipes, List.replicate, Answered, kernel]

theorem report_whole_probes : ∃ tr tr₁ tr₂ as t text, tr = tr₁ ++ tr₂ ∧ Exec probesCalls tr₁ (some as) ∧
    (probing.Left t ∧ (AgentCommand.probes ≠ .probes → t = probing)) ∧
    (kernel fun _ => True).after probing tr = t.wrote 4 text ∧ text <+: [] ++ ideal as ∧
      (¬ MayBeCut .probes → text = [] ++ ideal as) := by
  have : Fact (probing.Admitted fun _ => True) := ⟨[], rfl, trivial⟩
  obtain ⟨as, has⟩ := noPipes_exec
  obtain ⟨-, hrows⟩ := (wp_sound (wp_probesCalls rfl) has noPipes_answered).2 as rfl
  obtain ⟨r, hr, -⟩ := exists_report (by norm_num : 3 ≤ 3072) (by norm_num) hrows
    (List.length_replicate (n := 3072) (a := (7 : UInt8)))
  have hrun : Exec (runCommand {} 1 4 .probes) (noPipes ++
      [⟨.garbage 3072, List.replicate 3072 7⟩, ⟨.write 4 (cstr r.out), ()⟩]) (some ()) := by
    refine has.bind (Exec.perform_bind ?_)
    rw [hr]
    exact .call (.done ())
  have hans : (kernel fun _ => True).Answered probing (noPipes ++
      [⟨.garbage 3072, List.replicate 3072 7⟩, ⟨.write 4 (cstr r.out), ()⟩]) :=
    answered_append.mpr ⟨noPipes_answered, List.length_replicate, trivial, trivial⟩
  exact ⟨_, report_whole 1 (c := .probes) rfl rfl rfl ⟨[], rfl, trivial⟩ hrun hans⟩

end ZorinTrust.Bridge
