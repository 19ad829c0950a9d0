import ZorinTrust.AgentReports

/-!
# The shell agent serves

What `handle_client` does for each command, and the accept loop over it.  A command ends with one text
written to the client (`Kept`), and between two clients the agent holds nothing but its listening socket.
-/

namespace ZorinTrust.Bridge

open CText Numeral Calls Calls.Monitor Buffer

variable {s : Proc} {fd : ℤ} {g : Agent} {admits : Bytes → Prop}

/-! ### Sending -/

/-- The text of a report is a beginning of its lines, and all of them when the buffer is large enough. -/
def Sends (cap n : ℕ) (as : List Append) (text : Bytes) : Prop :=
  text <+: ideal as ∧ (n + 2 < cap → text = ideal as)

theorem exists_report {cap n : ℕ} {as : List Append} (hcap : 3 ≤ cap) (hint : cap < 2 ^ 31)
    (h : Rows n as) {out : Bytes} (hout : out.length = cap) :
    ∃ r, appendAll cap (Report.start out) as = some r ∧ Sends cap n as (cstr r.out) := by
  obtain ⟨⟨hlen, h0⟩, hne⟩ := h
  obtain ⟨r, hrun, hr⟩ := Written.appendAll hcap hint as (written_start hout)
  rw [List.nil_append] at hr
  refine ⟨r, hrun, ?_, fun hfit => ?_⟩
  · obtain ⟨t, rest, hrout, ht, hnul, -⟩ := hr.text
    obtain ⟨c, rest', rfl⟩ := List.exists_cons_of_ne_nil (l := rest) (by
      rintro rfl
      exact absurd (hnul (ideal_ne_nil hne)) (by simp))
    have hc := hnul (ideal_ne_nil hne)
    rw [List.head?_cons, Option.some.injEq] at hc
    subst hc
    rw [hrout, cstr_append rest' fun h => h0 (ht.subset h)]
    exact ht
  · obtain ⟨r', hrun', htext⟩ := appendAll_whole hint hout hne h0 (by omega)
    rw [hrun] at hrun'
    rw [Option.some.inj hrun', htext]

/-- The lines are rendered and sent. -/
theorem wp_sendReport {cap n : ℕ} {as : List Append} (hparent : s.inChild = false)
    (hfd : s.fds fd = some .socket) (hcap : 3 ≤ cap) (hint : cap < 2 ^ 31) (h : Rows n as) :
    (kernel admits).wp (sendReport fd cap as) (fun _ s' => ∃ text, s' = s.wrote fd text ∧ Sends cap n as text)
      s := by
  unfold sendReport
  refine wp_bind.mpr ((restores_garbage cap).wp fun out hout => ?_)
  refine wp_bind.mpr ((restores_orFault (exists_report hcap hint h hout)).wp fun r hr => ?_)
  exact wp_write hparent (.inl hfd) ⟨cstr r.out, rfl, hr⟩

/-- A report whose text fits its buffer holds it whole. -/
theorem written_cstr_out {cap : ℕ} {full : Bytes} {r : Report} (h : Written cap full r) (hne : full ≠ [])
    (h0 : 0 ∉ full) (hfit : full.length + 2 < cap) : cstr r.out = full := by
  obtain ⟨t, rest, hr, -, hnul, hopen⟩ := h.text
  obtain ⟨rest, rfl⟩ := List.head?_eq_some_iff.mp (hnul hne)
  have hle := h.pos_le
  obtain ⟨rfl, -⟩ := hopen (by omega)
  rw [hr, cstr_append rest h0]

/-- `command_report` sends its heading and all its lines. -/
theorem wp_sendHeaded {as : List Append} (hparent : s.inChild = false) (hfd : s.fds fd = some .socket)
    (has : Rows 1000 as) : (kernel admits).wp (sendHeaded fd as)
      (fun _ s' => s' = s.wrote fd (reportHeading ++ ideal as)) s := by
  unfold sendHeaded
  refine wp_bind.mpr ((restores_garbage 3072).wp fun out hout => ?_)
  obtain ⟨r1, hrun1, h1⟩ := (written_start hout).append (by norm_num) (by norm_num) reportHeading
  obtain ⟨r, hrun, h⟩ := Written.appendAll (by norm_num) (by norm_num) as h1
  rw [List.nil_append] at h
  have hne : reportHeading ++ ideal as ≠ [] := List.append_ne_nil_of_right_ne_nil _ (ideal_ne_nil has.2)
  have h0 : 0 ∉ reportHeading ++ ideal as := List.not_mem_append (by decide) has.1.2
  have hlen : (reportHeading ++ ideal as).length + 2 < 3072 := by
    rw [List.length_append, show reportHeading.length = 25 from by decide]
    have := has.1.1
    omega
  refine wp_bind.mpr (wp_orFault (a := r) ?_ (wp_write hparent (.inl hfd) ?_))
  · exact Option.bind_eq_some_iff.mpr ⟨r1, hrun1, hrun⟩
  · rw [written_cstr_out h hne h0 hlen]

/-! ### The services -/

/-- The loop only asks about the names it has. -/
theorem servicesLoop_congr {svc svc' : Bytes → Ping} : ∀ {ns : List Bytes} (st : Services),
    (∀ n ∈ ns, svc n = svc' n) → servicesLoop svc ns st = servicesLoop svc' ns st
  | [], _, _ => rfl
  | n :: ns, st, h => by
    have hrest := fun st => servicesLoop_congr st fun x hx => h x (List.mem_cons_of_mem n hx)
    simp only [servicesLoop, h n List.mem_cons_self, hrest]

section

variable {svc : Bytes → Ping} {n : Bytes} {ns : List Bytes} (h : n ∉ ns) (st : Services)

include h

/-- What a service does that is asked first does not matter to the rest of the loop. -/
theorem servicesLoop_update (a : Ping) (st : Services) :
    servicesLoop (Function.update svc n a) ns st = servicesLoop svc ns st :=
  servicesLoop_congr st fun x hx => Function.update_of_ne (by rintro rfl; exact h hx) ..

theorem servicesLoop_absent :
    servicesLoop (Function.update svc n .absent) (n :: ns) st = servicesLoop svc ns st := by
  rw [servicesLoop, Function.update_self]
  exact servicesLoop_update h _ st

theorem servicesLoop_failed : servicesLoop (Function.update svc n .failed) (n :: ns) st =
    servicesLoop svc ns { st with pingFail := st.pingFail + 1 } := by
  rw [servicesLoop, Function.update_self]
  exact servicesLoop_update h _ _

theorem servicesLoop_answered : servicesLoop (Function.update svc n .answered) (n :: ns) st =
    (nameFound st n).bind fun s => if s.pos > 4096 - 256 then some s else servicesLoop svc ns s := by
  rw [servicesLoop, Function.update_self, nameFound]
  simp only [servicesLoop_update h]

end

theorem restores_ping (h : 0 < s.refs) : (kernel admits).Restores s (sys .ping) fun _ => True :=
  ⟨h, fun _ _ => ⟨rfl, trivial⟩⟩

/-- The reference of `checkService` is given back. -/
theorem wp_decStrong {Q : Unit → Proc → Prop} (hQ : Q () s) :
    (kernel admits).wp (sys .decStrong) Q { s with refs := s.refs + 1 } := ⟨Nat.succ_pos _, fun _ _ => hQ⟩

variable [admitted : Fact (s.Admitted admits)]

theorem wp_checkService {name : String} {Q : Bool → Proc → Prop} (hname : name ∈ agentNames)
    (hno : Q false s) (hyes : Q true { s with refs := s.refs + 1 }) :
    (kernel admits).wp (sys (.checkService name)) Q s := by
  refine ⟨⟨admitted.out, hname⟩, fun found _ => ?_⟩
  cases found with
  | false => exact hno
  | true => exact hyes

/-- **The loop of `command_services`** does what it does for some behaviour of the services. -/
theorem restores_servicesTurns : ∀ {ns : List String} {st : Services}, (ns.map lit).Nodup →
    (∀ n ∈ ns, n ∈ agentNames) → (∀ svc, ∃ r, servicesLoop svc (ns.map lit) st = some r) →
    (kernel admits).Restores s (servicesTurns ns st) fun r => ∃ svc, servicesLoop svc (ns.map lit) st = some r
  | [], st, _, _, _ => restores_pure ⟨fun _ => .absent, rfl⟩
  | n :: ns, st, hnodup, hnames, hall => by
    rw [List.map_cons, List.nodup_cons] at hnodup
    obtain ⟨hn, hnodup⟩ := hnodup
    have hrest := fun x hx => hnames x (List.mem_cons_of_mem n hx)
    refine wp_bind.mpr (wp_checkService (hnames n List.mem_cons_self) ?_ ?_)
    · have hloop : ∀ svc, ∃ r, servicesLoop svc (ns.map lit) st = some r := fun svc => by
        rw [← servicesLoop_absent hn st]
        exact hall _
      exact (restores_servicesTurns hnodup hrest hloop).mono fun r ⟨svc, hsvc⟩ =>
        ⟨_, (servicesLoop_absent hn st).trans hsvc⟩
    · refine wp_bind.mpr (Restores.wp (restores_ping (Nat.succ_pos _)) fun pr _ => ?_)
      refine wp_bind.mpr (wp_decStrong ?_)
      split_ifs with hpr
      · have hloop : ∀ svc, ∃ r,
            servicesLoop svc (ns.map lit) { st with pingFail := st.pingFail + 1 } = some r := fun svc => by
          rw [← servicesLoop_failed hn st]
          exact hall _
        exact (restores_servicesTurns hnodup hrest hloop).mono fun r ⟨svc, hsvc⟩ =>
          ⟨_, (servicesLoop_failed hn st).trans hsvc⟩
      · -- the name was printed, or the loop would end without a result for a service that answers
        obtain ⟨r, hr⟩ := hall (Function.update (fun _ => .absent) (lit n) .answered)
        rw [List.map_cons, servicesLoop_answered hn] at hr
        obtain ⟨s2, hs2, -⟩ := Option.bind_eq_some_iff.mp hr
        refine wp_bind.mpr (wp_orFault hs2 ?_)
        have hbind : ∀ svc, servicesLoop (Function.update svc (lit n) .answered) (lit n :: ns.map lit) st =
            if s2.pos > 4096 - 256 then some s2 else servicesLoop svc (ns.map lit) s2 := fun svc => by
          rw [servicesLoop_answered hn, hs2, Option.bind_some]
        split_ifs with hpos
        · exact restores_pure ⟨_, (hbind fun _ => .absent).trans (if_pos hpos)⟩
        · have hloop : ∀ svc, ∃ r, servicesLoop svc (ns.map lit) s2 = some r := fun svc => by
            rw [← (hbind svc).trans (if_neg hpos)]
            exact hall _
          exact (restores_servicesTurns hnodup hrest hloop).mono fun r ⟨svc, hsvc⟩ =>
            ⟨_, ((hbind svc).trans (if_neg hpos)).trans hsvc⟩

theorem agentNames_nodup : (agentNames.map lit).Nodup := by
  rw [agentNames_eq]
  exact known_nodup

/-- The parts of the reply, for services that behave as `svc`. -/
theorem commandServices_parts (svc : Bytes → Ping) {out : Bytes} (hout : out.length = 4096) :
    ∃ s1 s2 s3 : Services,
      Services.print { out := out, pos := 0, found := 0, pingFail := 0 }
        (lit "tested=" ++ ofInt agentNames.length ++ lit "\nfound=") = some s1 ∧
      servicesLoop svc (agentNames.map lit) s1 = some s2 ∧
      s2.print (lit "\ncount=" ++ ofInt s2.found ++ lit "\nping_fail=" ++ ofInt s2.pingFail ++ lit "\n") =
        some s3 ∧ commandServices svc out = some (cstr s3.out) := by
  obtain ⟨m, -, h⟩ := commandServices_eq svc hout
  have heq := h
  rw [commandServices, Option.bind_eq_some_iff] at h
  obtain ⟨s2, hloop, hprint⟩ := h
  obtain ⟨s1, hstart, hloop⟩ := Option.bind_eq_some_iff.mp hloop
  obtain ⟨s3, hprint, htext⟩ := Option.map_eq_some_iff.mp hprint
  exact ⟨s1, s2, s3, hstart, hloop, hprint, heq.trans (congrArg some htext.symm)⟩

/-- **`command_services`** sends what it would for services that behave as they did. -/
theorem wp_commandServicesOn (hparent : s.inChild = false) (hfd : s.fds fd = some .socket) :
    (kernel admits).wp (commandServicesOn fd) (fun _ s' => ∃ text, s' = s.wrote fd text ∧
      ∃ svc out, out.length = 4096 ∧ commandServices svc out = some text) s := by
  unfold commandServicesOn
  refine wp_bind.mpr ((restores_garbage 4096).wp fun out hout => ?_)
  obtain ⟨s1, -, -, hs1, -, -, -⟩ := commandServices_parts (fun _ => .absent) hout
  refine wp_bind.mpr (wp_orFault hs1 ?_)
  have hall : ∀ svc, ∃ r, servicesLoop svc (agentNames.map lit) s1 = some r := fun svc => by
    obtain ⟨s1', s2, -, hs1', hs2, -, -⟩ := commandServices_parts svc hout
    obtain rfl := Option.some.inj (hs1.symm.trans hs1')
    exact ⟨s2, hs2⟩
  refine wp_bind.mpr ((restores_servicesTurns agentNames_nodup (fun _ h => h) hall).wp ?_)
  rintro s2 ⟨svc, hsvc⟩
  obtain ⟨s1', s2', s3, hs1', hs2, hs3, htext⟩ := commandServices_parts svc hout
  obtain rfl := Option.some.inj (hs1.symm.trans hs1')
  obtain rfl := Option.some.inj (hsvc.symm.trans hs2)
  refine wp_bind.mpr (wp_orFault hs3 ?_)
  exact wp_write hparent (.inl hfd) ⟨_, rfl, svc, out, hout, htext⟩

/-! ### The commands -/

/-- **Every command** ends in one text on the client's socket and gives the process back, but for children
that could not be waited for. -/
theorem wp_runCommand (fuel : ℕ) (c : AgentCommand) (hparent : s.inChild = false)
    (hfd : s.fds fd = some .socket) :
    (kernel admits).wp (runCommand g fuel fd c) (fun _ s' => ∃ t text, s.Left t ∧ s' = t.wrote fd text) s := by
  have hreport : ∀ {p : AgentM (List Append)} {cap n : ℕ}, 3 ≤ cap → cap < 2 ^ 31 →
      (kernel admits).wp p (fun as t => s.Left t ∧ Rows n as) s →
      (kernel admits).wp (p >>= sendReport fd cap) (fun _ s' => ∃ t text, s.Left t ∧ s' = t.wrote fd text)
        s := by
    refine fun h3 hint hp => wp_bind.mpr (wp_mono ?_ hp)
    rintro as t ⟨⟨pids, rfl⟩, has⟩
    exact wp_mono (fun _ s' ⟨text, hs', _⟩ => ⟨_, text, ⟨pids, rfl⟩, hs'⟩)
      (wp_sendReport (s := s.left pids) hparent hfd h3 hint has)
  cases c with
  | hello => exact wp_write hparent (.inl hfd) ⟨s, _, .refl s, rfl⟩
  | status =>
    exact hreport (by norm_num) (by norm_num)
      (left_of_restores (restores_statusCalls.mono fun as ⟨_, _, _, _, h⟩ => h.rows))
  | services =>
    exact wp_mono (fun _ s' ⟨text, hs', _⟩ => ⟨s, text, .refl s, hs'⟩) (wp_commandServicesOn hparent hfd)
  | kernel => exact hreport (by norm_num) (by norm_num) (left_of_restores restores_kernelCalls)
  | network => exact hreport (by norm_num) (by norm_num) (left_of_restores (restores_networkCalls fuel))
  | security => exact hreport (by norm_num) (by norm_num) (left_of_restores restores_securityCalls)
  | filesystem => exact hreport (by norm_num) (by norm_num) (left_of_restores (restores_filesystemCalls fuel))
  | process => exact hreport (by norm_num) (by norm_num) (left_of_restores restores_processCalls)
  | report =>
    exact wp_bind.mpr (restores_reportCalls.wp fun as has => wp_mono (fun _ s' hs' => ⟨s, _, .refl s, hs'⟩)
      (wp_sendHeaded hparent hfd has))
  | probes => exact hreport (by norm_num) (by norm_num) (wp_probesCalls hparent)
  | procfs => exact hreport (by norm_num) (by norm_num) (left_of_restores (restores_procfsCalls fuel))

/-! ### The accept loop -/

/-- The process holds what it held, and has waited for its children. -/
structure Kept (s s' : Proc) : Prop where
  fds : s'.fds = s.fds
  refs : s'.refs = s.refs
  children : s'.children = s.children
  inChild : s'.inChild = s.inChild

omit admitted in
/-- **`handle_client`**: only a request that reaches a command other than HELLO looks at the device. -/
theorem wp_handleConnection (fuel : ℕ)
    (hadmits : ∀ req c, c ≠ .hello → handleClient g req = .command c → admits req)
    (hparent : s.inChild = false) (hfd : s.fds fd = some .socket) :
    (kernel admits).wp (handleConnection g fuel fd) (fun _ s' => Kept s s') s := by
  unfold handleConnection
  refine wp_bind.mpr (wp_request hfd fun req _ => ?_)
  cases req with
  | none => exact ⟨rfl, rfl, rfl, rfl⟩
  | some req =>
    dsimp only
    cases hreq : handleClient g req with
    | closed => exact ⟨rfl, rfl, rfl, rfl⟩
    | refused => exact wp_write hparent (.inl hfd) ⟨rfl, rfl, rfl, rfl⟩
    | unknown => exact wp_write hparent (.inl hfd) ⟨rfl, rfl, rfl, rfl⟩
    | command c =>
      by_cases hc : c = .hello
      · subst hc
        exact wp_write hparent (.inl hfd) ⟨rfl, rfl, rfl, rfl⟩
      · have : Fact ((s.asked (some req)).Admitted admits) := ⟨⟨req, rfl, hadmits req c hc hreq⟩⟩
        refine wp_mono ?_ (wp_runCommand fuel c (s := s.asked (some req)) hparent hfd)
        rintro _ _ ⟨_, text, ⟨pids, rfl⟩, rfl⟩
        exact ⟨rfl, rfl, rfl, rfl⟩

/-- A served connection that is closed leaves the process as idle as before. -/
theorem Proc.Idle.of_kept {listener c : ℤ} {s s' : Proc} (h : s.Idle listener) (hfree : s.fds c = none)
    (hkept : Kept ((s.asked none).opened c .socket) s') : (s'.closed c).Idle listener where
  fds fd := by
    have hclosed : (s'.closed c).fds = s.fds := by
      rw [Proc.closed_fds, hkept.fds, Proc.opened_fds, Function.update_idem]
      exact Function.update_eq_self_iff.mpr hfree.symm
    rw [hclosed, h.fds]
  refs := hkept.refs.trans h.refs
  children := hkept.children.trans h.children
  inChild := hkept.inChild.trans h.inChild

omit admitted in
theorem wp_accept {listener : ℤ} {Q : ℤ → Proc → Prop} (hidle : s.Idle listener)
    (hfail : ∀ c < 0, Q c (s.asked none))
    (hopen : ∀ c, 0 ≤ c → s.fds c = none → Q c ((s.asked none).opened c .socket)) :
    (kernel admits).wp (sys (.accept listener)) Q s := by
  refine ⟨hidle, fun (c : ℤ) hfree => ?_⟩
  show Q c (if 0 ≤ c then (s.asked none).opened c .socket else s.asked none)
  rcases lt_or_ge c 0 with hc | hc
  · rw [if_neg (not_le.mpr hc)]
    exact hfail c hc
  · rw [if_pos hc]
    exact hopen c hc (hfree hc)

omit admitted in
/-- **The accept loop** never returns, and accepts whenever it is back. -/
theorem wp_serve (fuel : ℕ) (listener : ℤ)
    (hadmits : ∀ req c, c ≠ .hello → handleClient g req = .command c → admits req) :
    ∀ (turns : ℕ) {s : Proc}, s.Idle listener →
      (kernel admits).wp (serve g fuel listener turns) (fun _ _ => False) s
  | 0, _, _ => wp_cut
  | n + 1, s, hidle => by
    unfold serve
    refine wp_bind.mpr (wp_accept hidle (fun c hc => ?_) fun c hc hfree => ?_)
    · rw [if_pos hc]
      exact wp_serve fuel listener hadmits n ⟨hidle.fds, hidle.refs, hidle.children, hidle.inChild⟩
    · rw [if_neg (not_lt.mpr hc)]
      refine wp_bind.mpr (wp_mono ?_ (wp_handleConnection fuel hadmits hidle.inChild opened_self))
      intro _ s' hkept
      have hopen : s'.fds c = some .socket := by
        rw [hkept.fds]
        exact opened_self
      exact wp_bind.mpr (wp_close hopen (by decide)
        (wp_serve fuel listener hadmits n (hidle.of_kept hfree hkept)))

end ZorinTrust.Bridge
