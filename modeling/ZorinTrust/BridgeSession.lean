import ZorinTrust.BridgeClient
import ZorinTrust.AgentRuns

/-!
# App and agent over one connection

A request of the app and the agent's turn that serves it, each a run of its own program, joined by the text
the one writes and the other receives.  `exchange_token` says when the app is told that its token is wrong,
`status_reads_back` that the fields it shows of a `STATUS` are what the agent read.
-/

namespace ZorinTrust.Bridge

open CText Lines Numeral Calls Calls.Monitor

variable {g : Agent} {token : CStr 96} {wire text : Bytes} {cap fuel : ℕ} {r : ℤ × Bytes}

local instance neZeroStored : NeZero 96 := ⟨by decide⟩

/-! ### The two runs -/

/-- A request of the app that sent `wire` and got `text` back, in some pieces. -/
def Requests (token : CStr 96) (command : Bytes) (cap : ℕ) (wire text : Bytes) (r : ℤ × Bytes) : Prop :=
  ∃ out tr, Exec (bridgeRequest token command out cap) tr (some r) ∧
    (request token command cap (Delivers text)).Answered {} tr ∧
    ((request token command cap (Delivers text)).after {} tr).wire = some wire ∧
    ((request token command cap (Delivers text)).after {} tr).got ≠ []

/-- A turn of the agent that reads `wire` and hands `text` to the client's socket. -/
def Serves (g : Agent) (fuel : ℕ) (wire text : Bytes) : Prop :=
  ∃ (fd : ℤ) (s : Proc) (tr : List (Σ op, Sys.Answer op)), s.inChild = false ∧
    s.fds fd = some .socket ∧ Exec (handleConnection g fuel fd) (⟨.read fd 511, some wire⟩ :: tr) (some ()) ∧
    (kernel fun _ => True).Answered s (⟨.read fd 511, some wire⟩ :: tr) ∧
    ((kernel fun _ => True).after s (⟨.read fd 511, some wire⟩ :: tr)).sent = s.sent ++ [(fd, text)]

theorem Requests.eq {command : Bytes} (h : Requests token command cap wire text r) (hcap : 2 ≤ cap) :
    bridgeWire token command = some wire ∧ r = bridgeReply text cap := by
  obtain ⟨out, tr, hrun, hans, hwire, hgot⟩ := h
  have hout := (wp_sound (wp_bridgeRequest out hcap) hrun hans).2 r rfl
  obtain ⟨-, -, hsame, -⟩ := hout.answered hgot
  exact ⟨hsame.trans hwire, hout.delivered hgot⟩

/-- What the agent does with the wire text decides what it writes. -/
theorem Serves.exec (h : Serves g fuel wire text) : ∃ (fd : ℤ) (s : Proc) (tr : List (Σ op, Sys.Answer op)),
    s.inChild = false ∧ s.fds fd = some .socket ∧ s.Admitted (fun _ => True) ∧
    Exec (match handleClient g wire with
      | .closed => return ()
      | .refused => sendText fd (lit "ERR auth-required-or-failed\n")
      | .command c => runCommand g fuel fd c
      | .unknown => sendText fd (lit ("ERR unknown-command; allowed=HELLO,STATUS,SERVICES,KERNEL," ++
          "NETWORK,SECURITY,FILESYSTEM,PROCESS,REPORT,PROBES,PROCFS\n"))) tr (some ()) ∧
    (kernel fun _ => True).Answered s tr ∧ ((kernel fun _ => True).after s tr).sent = s.sent ++ [(fd, text)] := by
  obtain ⟨fd, s, tr, hparent, hfd, hrun, hans, hafter⟩ := h
  have hnext : (kernel fun _ => True).next s (.read fd 511) (some wire) = s.asked (some wire) :=
    next_read hfd 511 (some wire)
  cases hrun with
  | call hrun =>
    refine ⟨fd, s.asked (some wire), tr, hparent, hfd, ⟨wire, rfl, trivial⟩, hrun, ?_, ?_⟩
    · rw [← hnext]
      exact hans.2
    · have hsent : ((kernel fun _ => True).after ((kernel fun _ => True).next s (.read fd 511) (some wire))
          tr).sent = s.sent ++ [(fd, text)] := hafter
      rwa [hnext] at hsent

/-- A text that is sent is the text that was to be sent. -/
theorem sent_of_sendText {fd : ℤ} {s : Proc} {t : Bytes} {tr : List (Σ op, Sys.Answer op)}
    (hrun : Exec (sendText fd t) tr (some ()))
    (hafter : ((kernel fun _ => True).after s tr).sent = s.sent ++ [(fd, text)]) : text = t := by
  cases hrun with
  | call hrun =>
    cases hrun
    have hsent : s.sent ++ [(fd, t)] = s.sent ++ [(fd, text)] := hafter
    exact (congrArg Prod.snd (List.singleton_inj.mp (List.append_cancel_left hsent))).symm

/-! ### A wrong token -/

/-- `authorize` on a line with a token and a command. -/
theorem authorize_line {buf u rest : Bytes} (hauth : g.gRequireAuth = true) (hu : sp ∉ u)
    (htrim : trim buf = lit "AUTH " ++ (u ++ sp :: rest)) :
    authorize g buf = if tokenEqual u g.gToken.val then some (rest.dropWhile (· == sp)) else none := by
  have hhello : ¬ streq (lit "AUTH " ++ (u ++ sp :: rest)) (lit "HELLO") = true := fun h => by
    have hhead : (some 65 : Option UInt8) = some 72 := congrArg List.head? (streq_iff.mp h)
    exact absurd hhead (by decide)
  have hprefix : streqPrefix (lit "AUTH " ++ (u ++ sp :: rest)) (lit "AUTH ") = true :=
    streqPrefix_iff.mpr (List.prefix_append _ _)
  have hfive : (lit "AUTH " ++ (u ++ sp :: rest)).drop 5 = u ++ ([sp] ++ rest) := rfl
  obtain ⟨htake, hdrop⟩ : (u ++ ([sp] ++ rest)).takeWhile (· != sp) = u ∧
      (u ++ ([sp] ++ rest)).dropWhile (· != sp) = [sp] ++ rest :=
    split_token hu (List.cons_ne_nil sp []) fun c hc => List.mem_singleton.mp hc
  unfold authorize
  dsimp only
  rw [htrim, if_neg hhello, hauth, Bool.not_true, if_neg Bool.false_ne_true, hprefix, Bool.not_true,
    if_neg Bool.false_ne_true, hfive, htake, hdrop, if_neg (List.append_ne_nil_of_left_ne_nil (by simp) _)]
  cases tokenEqual u g.gToken.val <;> rfl

/-- The wire text of a command other than HELLO. -/
theorem bridgeWire_eq {c : AgentCommand} (hc : c ≠ .hello) (hwire : bridgeWire token c.name = some wire) :
    wire = cut 384 (lit "AUTH " ++ token.val ++ sp :: (c.name ++ [10])) := by
  rw [bridgeWire, if_neg fun h => name_ne_hello hc (miniStreq_iff.mp h)] at hwire
  split_ifs at hwire
  exact (Option.some.inj hwire).symm

theorem trim_wire {c : AgentCommand} (hc : c ≠ .hello) (hwire : bridgeWire token c.name = some wire) :
    trim (cstr (cut 512 wire)) = lit "AUTH " ++ (token.val ++ sp :: c.name) := by
  obtain ⟨-, hlen, h0, -⟩ := name_ok c
  have hfit := token.fits
  have hline : lit "AUTH " ++ token.val ++ sp :: (c.name ++ [10]) =
      (lit "AUTH " ++ token.val ++ [sp]) ++ c.name ++ [10] := by simp
  have hshort : ((lit "AUTH " ++ token.val ++ [sp]) ++ c.name ++ [10]).length < 384 := by
    have hauth : (lit "AUTH ").length = 5 := rfl
    simp only [List.length_append, List.length_singleton]
    omega
  have hnul : 0 ∉ (lit "AUTH " ++ token.val ++ [sp]) ++ c.name ++ [10] := by
    have hauth : 0 ∉ lit "AUTH " := by decide
    have hspace : (0 : UInt8) ≠ sp := by decide
    simp [hauth, hspace, token.nulFree, h0]
  rw [bridgeWire_eq hc hwire, hline, cut_of_lt hshort, cut_of_lt (by omega), cstr_of_nulFree hnul, trim_name]
  simp

/-- **A wrong token is refused**: the agent takes a command of the app exactly under its own token. -/
theorem handleClient_wire {c : AgentCommand} (hauth : g.gRequireAuth = true) (hc : c ≠ .hello)
    (hsp : sp ∉ token.val) (hwire : bridgeWire token c.name = some wire) :
    handleClient g wire = if token = g.gToken then .command c else .refused := by
  by_cases htoken : token = g.gToken
  · subst htoken
    rw [if_pos rfl, handleClient_iff_presents hauth hc, bridgeWire_eq hc hwire]
    exact presents_wire _ c hsp
  · have hne : wire ≠ [] := by
      rintro rfl
      exact absurd (trim_wire hc hwire) (List.ne_nil_of_length_pos (by simp [lit])).symm
    have hequal : ¬ tokenEqual token.val g.gToken.val = true := by
      rw [tokenEqual_iff token.nulFree g.gToken.nulFree, token_take, token_take]
      exact fun h => htoken (CStr.ext h)
    rw [handleClient, if_neg hne, authorize_line hauth hsp (trim_wire hc hwire), if_neg hequal,
      if_neg htoken]

/-! ### What the app is told -/

/-- The refusal as the app reads it. -/
theorem bridgeReply_refused (hcap : 29 ≤ cap) :
    bridgeReply (lit "ERR auth-required-or-failed\n") cap = (403, lit "ERR auth-required-or-failed") := by
  have htake : (lit "ERR auth-required-or-failed\n").take (cap - 1) = lit "ERR auth-required-or-failed\n" :=
    List.take_of_length_le (by simp [lit]; omega)
  rw [bridgeReply, htake]
  decide

/-- **A wrong token is noticed.**  An agent that requires authentication answers a command under a token
that is not its own with a refusal, and the app's code for it is 403; under its own token the app gets
`bridgeReply` of what the command writes. -/
theorem exchange_token {c : AgentCommand} (hauth : g.gRequireAuth = true) (hc : c ≠ .hello)
    (hsp : sp ∉ token.val) (hcap : 29 ≤ cap) (hreq : Requests token c.name cap wire text r)
    (hserve : Serves g fuel wire text) :
    (token ≠ g.gToken → r = (403, lit "ERR auth-required-or-failed")) ∧
      (token = g.gToken → r = bridgeReply text cap ∧ ∃ (fd : ℤ) (s : Proc) (tr : List (Σ op, Sys.Answer op)),
        s.fds fd = some .socket ∧ Exec (runCommand g fuel fd c) tr (some ()) ∧
        ((kernel fun _ => True).after s tr).sent = s.sent ++ [(fd, text)]) := by
  obtain ⟨hwire, rfl⟩ := hreq.eq (by omega)
  obtain ⟨fd, s, tr, hparent, hfd, hadm, hrun, hans, hafter⟩ := hserve.exec
  rw [handleClient_wire hauth hc hsp hwire] at hrun
  constructor
  · intro htoken
    rw [if_neg htoken] at hrun
    rw [sent_of_sendText hrun hafter, bridgeReply_refused hcap]
  · intro htoken
    rw [if_pos htoken] at hrun
    exact ⟨rfl, fd, s, tr, hfd, hrun, hafter⟩

/-! ### The fields of a report -/

open Search

/-- The pair a call renders. -/
def pairOf : Append → Bytes × Bytes
  | .kv k v => (k, v.getD [])
  | .i k x => (k, ofInt x)

theorem ideal_pairOf (as : List Append) : ideal as = ideal (renderCalls (as.map pairOf)) := by
  rw [ideal, ideal, renderCalls, List.map_map, List.flatMap_map]
  refine List.flatMap_congr fun a _ => ?_
  cases a <;> rfl

/-- The last line feed does not matter to `bridge_field`. -/
theorem bridgeField_concat (text out : Bytes) {key : Bytes} (hkey : 10 ∉ key) (cap : ℕ) :
    bridgeField (text ++ [10]) key out cap = bridgeField text key out cap := by
  have hpat : 10 ∉ fieldPattern key := notMem_fieldPattern hkey (by decide)
  rw [bridgeField, bridgeField]
  cases h : text.dropInfix? (fieldPattern key) with
  | none =>
    have hnot : ¬ fieldPattern key <:+: text ++ 10 :: [] := by
      rw [infix_append_sep_iff hpat, not_or]
      exact ⟨dropInfix?_eq_none.mp h, fun hnil => fieldPattern_ne_nil key (List.infix_nil.mp hnil)⟩
    rw [dropInfix?_eq_none.mpr hnot]
  | some ap =>
    obtain ⟨a, p⟩ := ap
    rw [dropInfix?_append_right h]
    have htake : (p ++ [10]).takeWhile (· != 10) = p.takeWhile (· != 10) := by
      rw [List.takeWhile_append]
      split_ifs with hall
      · rw [(List.takeWhile_prefix _).eq_of_length hall]
        exact List.append_nil p
      · rfl
    dsimp only
    rw [htake]

/-- A text without separators that is in no key and no value is nowhere in the report. -/
theorem notInfix_ideal {i : Bytes} (h10 : 10 ∉ i) (h61 : 61 ∉ i) (hne : i ≠ []) :
    ∀ kvs : List (Bytes × Bytes), (∀ kv ∈ kvs, ¬ i <:+: kv.1 ∧ ¬ i <:+: kv.2) →
      ¬ i <:+: ideal (renderCalls kvs)
  | [], _ => fun h => hne (List.infix_nil.mp h)
  | kv :: kvs, h => by
    obtain ⟨hk, hv⟩ := h kv List.mem_cons_self
    have hrest := notInfix_ideal h10 h61 hne kvs fun kv hkv => h kv (List.mem_cons_of_mem _ hkv)
    have hcons : ideal (renderCalls (kv :: kvs)) = kv.1 ++ 61 :: (kv.2 ++ 10 :: ideal (renderCalls kvs)) := by
      simp [ideal, renderCalls, Append.line, kvLine]
    rw [hcons, infix_append_sep_iff h61, infix_append_sep_iff h10]
    exact not_or.mpr ⟨hk, not_or.mpr ⟨hv, hrest⟩⟩

/-- A key that is no ending of an earlier key is read from its own line. -/
theorem bridgeField_of_getElem {kvs : List (Bytes × Bytes)} {i : ℕ} {k v : Bytes} (hok : PairsOk kvs)
    (hvalues : ∀ kv ∈ kvs, 61 ∉ kv.2) (hi : kvs[i]? = some (k, v)) (hlen : k.length ≤ 94)
    (hpre : ∀ k' ∈ (kvs.map Prod.fst).take i, ¬ k <:+ k') (out : Bytes) (hcap : 2 ≤ cap) :
    bridgeField (ideal (renderCalls kvs)) k out cap = answer cap v := by
  obtain ⟨hlt, hkv⟩ := List.getElem?_eq_some_iff.mp hi
  have hsplit : kvs = kvs.take i ++ (k, v) :: kvs.drop (i + 1) := by
    rw [← hkv, ← List.drop_eq_getElem_cons hlt, List.take_append_drop]
  have hclear : ∀ x ∈ kvs.take i, ¬ fieldPattern k <:+: pairLine x := fun x hx => by
    have hmem := List.mem_of_mem_take hx
    rw [fieldPattern_infix_iff hlen (hok.key x hmem).1 (hvalues x hmem)]
    exact hpre x.1 (by rw [← List.map_take]; exact List.mem_map_of_mem hx)
  rw [bridgeField_ideal hok (hok.key _ (List.mem_of_getElem? hi)).2 out hcap, hsplit,
    afterFirst_of_clear _ _ hlen hclear]

/-- The values of a report are single lines, hold no `=` and do not read as a refusal. -/
def Plain (as : List Append) : Prop :=
  ∀ kv ∈ as.map pairOf, 10 ∉ kv.2 ∧ 61 ∉ kv.2 ∧ ¬ lit "ERR auth-required-or-failed" <:+: kv.2

/-- `trim_line` takes the last line feed of a report off, and nothing else when its last value has no blank at
the end. -/
theorem trimLine_ideal (init : List Append) {k v : Bytes} (hv : Trimmed v) :
    trimLine (ideal (init ++ [.kv k (some v)])) ++ [10] = ideal (init ++ [.kv k (some v)]) := by
  have hlast : ideal (init ++ [.kv k (some v)]) = (ideal init ++ k ++ 61 :: v) ++ [10] := by
    simp [ideal, Append.line, kvLine]
  have hkeep : trimLine (ideal init ++ k ++ 61 :: v) = ideal init ++ k ++ 61 :: v := by
    refine List.rdropWhile_eq_self_iff.mpr fun hne => ?_
    rw [List.getLast_append_of_ne_nil _ (List.cons_ne_nil 61 v)]
    rcases eq_or_ne v [] with rfl | hv'
    · decide
    · rw [List.getLast_cons hv']
      exact List.rdropWhile_eq_self_iff.mp hv hv'
  rw [hlast, trimLine, List.rdropWhile_concat_pos _ _ _ (by decide)]
  exact congrArg (· ++ [10]) hkeep

theorem answer_of_fits {v : Bytes} (h : Fits cap v) : answer cap v = ((v.length : ℤ), v) := by
  rw [answer, cut_of_lt h.1]

/-- The keys of a `STATUS`. -/
def statusKeys : List Bytes :=
  ["mode", "uid", "gid", "pid", "context", "seccomp", "no_new_privs", "capeff", "binder_nodes",
    "vndbinder_open", "proc_net", "selinux_enforce"].map lit

theorem statusKeys_ok : statusKeys.Nodup ∧
    ∀ k ∈ statusKeys, 61 ∉ k ∧ 10 ∉ k ∧ ¬ lit "ERR auth-required-or-failed" <:+: k := by
  decide

theorem StatusReport.keys {as : List Append} {ctx sec enforce : Bytes} {net : Bool}
    (h : StatusReport ctx sec enforce net as) : (as.map pairOf).map Prod.fst = statusKeys := by
  obtain ⟨mode, nnp, caps, nodes, uid, gid, pid, vopen, rfl, -⟩ := h
  rfl

/-- A plain `STATUS` is no refusal, and the app keeps all of it but its last line feed. -/
theorem bridgeReply_status {as : List Append} {ctx sec enforce : Bytes} {net : Bool}
    (h : StatusReport ctx sec enforce net as) (hplain : Plain as) :
    ∃ body, bridgeReply (ideal as) 2048 = (0, body) ∧ body ++ [10] = ideal as := by
  obtain ⟨⟨hlen, h0⟩, hne⟩ := h.rows
  have hkeys := h.keys
  obtain ⟨mode, nnp, caps, nodes, uid, gid, pid, vopen, has, -, -, -, -, -, -, -, -, htrim⟩ := h
  have hbody : trimLine (ideal as) ++ [10] = ideal as := by
    rw [has]
    exact trimLine_ideal [.kv (lit "mode") (some mode), .i (lit "uid") uid, .i (lit "gid") gid,
      .i (lit "pid") pid, .kv (lit "context") (some ctx), .kv (lit "seccomp") (some sec),
      .kv (lit "no_new_privs") (some nnp), .kv (lit "capeff") (some caps),
      .kv (lit "binder_nodes") (some nodes), .i (lit "vndbinder_open") (bit vopen),
      .i (lit "proc_net") (bit net)] htrim
  have hclear : ¬ lit "ERR auth-required-or-failed" <:+: ideal as := by
    rw [ideal_pairOf]
    refine notInfix_ideal (by decide) (by decide) (by decide) _ fun kv hkv => ⟨?_, (hplain kv hkv).2.2⟩
    exact (statusKeys_ok.2 kv.1 (hkeys ▸ List.mem_map_of_mem hkv)).2.2
  have hnot : ¬ strstr (trimLine (ideal as)) (lit "ERR auth-required-or-failed") = true := fun hin =>
    hclear ((strstr_iff.mp hin).trans (hbody ▸ List.prefix_append _ _).isInfix)
  refine ⟨trimLine (ideal as), ?_, hbody⟩
  rw [bridgeReply, List.take_of_length_le (by omega), cstr_of_nulFree h0, if_neg (ideal_ne_nil hne),
    if_neg hnot]

/-- The reply to `STATUS` in the app's buffer. -/
theorem status_fields {as : List Append} {ctx sec enforce : Bytes} {net : Bool}
    (hreport : StatusReport ctx sec enforce net as) (hplain : Plain as) :
    (bridgeReply (ideal as) 2048).1 = 0 ∧ ∀ out,
      bridgeField (bridgeReply (ideal as) 2048).2 (lit "context") out 192 = ((ctx.length : ℤ), ctx) ∧
      bridgeField (bridgeReply (ideal as) 2048).2 (lit "seccomp") out 32 = ((sec.length : ℤ), sec) ∧
      bridgeField (bridgeReply (ideal as) 2048).2 (lit "selinux_enforce") out 64 =
        ((enforce.length : ℤ), enforce) ∧
      bridgeField (bridgeReply (ideal as) 2048).2 (lit "proc_net") out 32 = (1, ofNat (bit net)) := by
  obtain ⟨body, hreply, hbody⟩ := bridgeReply_status hreport hplain
  have hkeys := hreport.keys
  have hok : PairsOk (as.map pairOf) := by
    refine ⟨hkeys ▸ statusKeys_ok.1, fun kv hkv => ?_, fun kv hkv => (hplain kv hkv).1⟩
    obtain ⟨h61, h10, -⟩ := statusKeys_ok.2 kv.1 (hkeys ▸ List.mem_map_of_mem hkv)
    exact ⟨h61, h10⟩
  have hread : ∀ {k v : Bytes} (i : ℕ) (out : Bytes) {cap : ℕ}, 2 ≤ cap → (as.map pairOf)[i]? = some (k, v) →
      k.length ≤ 94 → (∀ k' ∈ statusKeys.take i, ¬ k <:+ k') → bridgeField body k out cap = answer cap v := by
    intro k v i out cap hcap hi hlen hpre
    rw [← bridgeField_concat body out (hok.key _ (List.mem_of_getElem? hi)).2, hbody, ideal_pairOf]
    exact bridgeField_of_getElem hok (fun kv hkv => (hplain kv hkv).2.1) hi hlen (hkeys ▸ hpre) out hcap
  obtain ⟨mode, nnp, caps, nodes, uid, gid, pid, vopen, rfl, -, -, hctx, hsec, -, -, -, henf, -⟩ := hreport
  rw [hreply]
  refine ⟨rfl, fun out => ⟨?_, ?_, ?_, ?_⟩⟩
  · exact (hread (v := ctx) 4 out (by norm_num) rfl (by decide) (by decide)).trans (answer_of_fits hctx)
  · exact (hread (v := sec) 5 out (by norm_num) rfl (by decide) (by decide)).trans (answer_of_fits hsec.1)
  · exact (hread (v := enforce) 11 out (by norm_num) rfl (by decide) (by decide)).trans
      (answer_of_fits (fits_mono henf (by norm_num)))
  · refine (hread (v := ofInt (bit net)) 10 out (by norm_num) rfl (by decide) (by decide)).trans ?_
    cases net <;> decide

/-- **A `STATUS` reads back.**  Under the agent's token the app's request succeeds, and when the values are
plain the fields it shows are those the agent put into the report: the context, the seccomp mode, the
SELinux state and whether `/proc/net` is readable. -/
theorem status_reads_back (hauth : g.gRequireAuth = true) (hsp : sp ∉ token.val) (htoken : token = g.gToken)
    (hreq : Requests token (lit "STATUS") 2048 wire text r) (hserve : Serves g fuel wire text) :
    ∃ tr as ctx sec enforce net, Exec statusCalls tr (some as) ∧ StatusReport ctx sec enforce net as ∧
      text = ideal as ∧ (Plain as → r.1 = 0 ∧ ∀ out,
        bridgeField r.2 (lit "context") out 192 = ((ctx.length : ℤ), ctx) ∧
        bridgeField r.2 (lit "seccomp") out 32 = ((sec.length : ℤ), sec) ∧
        bridgeField r.2 (lit "selinux_enforce") out 64 = ((enforce.length : ℤ), enforce) ∧
        bridgeField r.2 (lit "proc_net") out 32 = (1, ofNat (bit net))) := by
  obtain ⟨hwire, rfl⟩ := hreq.eq (by norm_num)
  obtain ⟨fd, s, tr, hparent, hfd, hadm, hrun, hans, hafter⟩ := hserve.exec
  rw [handleClient_wire (c := .status) hauth (by decide) hsp hwire, if_pos htoken] at hrun
  have : Fact (s.Admitted fun _ => True) := ⟨hadm⟩
  have hsend : ∀ as t, t = s → (∃ ctx sec enforce net, StatusReport ctx sec enforce net as) →
      (kernel fun _ => True).wp (sendReport fd 2048 as)
        (fun _ s' => ∃ text, s' = t.wrote fd text ∧ Sends 2048 1000 as text) t := by
    rintro as t rfl ⟨_, _, _, _, h⟩
    exact wp_sendReport hparent hfd (by norm_num) (by norm_num) h.rows
  obtain ⟨tr₁, tr₂, as, t, text', -, hgather, rfl, ⟨ctx, sec, enforce, net, hreport⟩, hsent, htext⟩ :=
    sent_of_run restores_statusCalls hsend hrun hans
  have htext : text = ideal as := by
    have hsame : t.sent ++ [(fd, text')] = t.sent ++ [(fd, text)] :=
      (congrArg Proc.sent hsent).symm.trans hafter
    have hone : text' = text := congrArg Prod.snd (List.singleton_inj.mp (List.append_cancel_left hsame))
    exact hone ▸ htext.2 (by norm_num)
  refine ⟨tr₁, as, ctx, sec, enforce, net, hgather, hreport, htext, fun hplain => ?_⟩
  rw [htext]
  exact status_fields hreport hplain

/-! ### Runs -/

theorem requests_onePiece {command : Bytes} (hwire : bridgeWire token command = some wire) (hne : text ≠ [])
    (hfit : text.length < cap - 1) : Requests token command cap wire text (bridgeReply text cap) := by
  refine ⟨[], onePiece wire text cap, onePiece_exec hwire hne hfit, onePiece_answered hne hfit.le, if_pos rfl, ?_⟩
  exact List.append_ne_nil_of_left_ne_nil hne _

/-- A `STATUS` on a device where no file can be opened. -/
def noFiles : List (Σ op, Sys.Answer op) :=
  let status : List (Σ op, Sys.Answer op) :=
    [⟨.openFile "/proc/self/status" .rdonly, (-1 : ℤ)⟩, ⟨.errno, (13 : ℤ)⟩]
  status ++ status ++ status ++
    [⟨.openFile "/proc/self/attr/current" .rdonly, (-1 : ℤ)⟩, ⟨.errno, (13 : ℤ)⟩,
      ⟨.access "/dev/binder", false⟩, ⟨.access "/dev/hwbinder", false⟩, ⟨.access "/dev/vndbinder", false⟩,
      ⟨.access "/proc/net/tcp", true⟩, ⟨.openFile "/dev/vndbinder" .rdwr, (-1 : ℤ)⟩,
      ⟨.openFile "/sys/fs/selinux/enforce" .rdonly, (-1 : ℤ)⟩, ⟨.errno, (13 : ℤ)⟩, ⟨.getuid, (2000 : ℤ)⟩,
      ⟨.getuid, (2000 : ℤ)⟩, ⟨.getgid, (2000 : ℤ)⟩, ⟨.getpid, (77 : ℤ)⟩]

/-- What it reports. -/
def noFilesReport : List Append :=
  [.kv (lit "mode") (some (cut 192 (lit "adb-shell"))), .i (lit "uid") 2000, .i (lit "gid") 2000,
    .i (lit "pid") 77, .kv (lit "context") (some (errnoText 192 13)), .kv (lit "seccomp") (some (lit "?")),
    .kv (lit "no_new_privs") (some (lit "?")), .kv (lit "capeff") (some (lit "?")),
    .kv (lit "binder_nodes") (some (cut 192 (ofNat 0 ++ lit "/" ++ ofNat 0 ++ lit "/" ++ ofNat 0))),
    .i (lit "vndbinder_open") 0, .i (lit "proc_net") 1, .kv (lit "selinux_enforce") (some (errnoText 32 13))]

theorem noFiles_exec : Exec statusCalls noFiles (some noFilesReport) :=
  .call <| .call <| .call <| .call <| .call <| .call <| .call <| .call <| .call <| .call <| .call <|
    .call <| .call <| .call <| .call <| .call <| .call <| .call <| .call <| .done _

theorem noFiles_answered (s : Proc) : (kernel fun _ => True).Answered s noFiles := by
  simp [noFiles, Answered, kernel, IsLong]

/-- The agent's turn on that device. -/
theorem noFiles_serves (hauth : g.gRequireAuth = true) (hsp : sp ∉ g.gToken.val)
    (hwire : bridgeWire g.gToken (lit "STATUS") = some wire) (hlen : wire.length ≤ 511) :
    Serves g fuel wire (ideal noFilesReport) ∧ ideal noFilesReport ≠ [] ∧
      (ideal noFilesReport).length < 2047 := by
  have has := noFiles_exec
  set s : Proc := (Proc.boot.opened 4 .socket).asked (some wire) with hs
  have hadm : Fact (s.Admitted fun _ => True) := ⟨wire, rfl, trivial⟩
  obtain ⟨hkept, ctx, sec, enforce, net, hstatus⟩ := (wp_sound restores_statusCalls has (noFiles_answered s)).2 _ rfl
  obtain ⟨r, hr, htext⟩ := exists_report (by norm_num : 3 ≤ 2048) (by norm_num) hstatus.rows
    (List.length_replicate (n := 2048) (a := (7 : UInt8)))
  have hwhole := htext.2 (by norm_num)
  have hrun : Exec (runCommand g fuel 4 .status) (noFiles ++
      [⟨.garbage 2048, List.replicate 2048 7⟩, ⟨.write 4 (cstr r.out), ()⟩]) (some ()) := by
    refine has.bind (Exec.perform_bind ?_)
    rw [hr]
    exact .call (.done ())
  have hopen : (Proc.boot.opened 4 .socket).fds 4 = some .socket := opened_self
  have hnext : (kernel fun _ => True).next (Proc.boot.opened 4 .socket) (.read 4 511) (some wire) =
      (Proc.boot.opened 4 .socket).asked (some wire) := next_read hopen 511 (some wire)
  rw [← hwhole]
  refine ⟨⟨4, Proc.boot.opened 4 .socket,
    noFiles ++ [⟨.garbage 2048, List.replicate 2048 7⟩, ⟨.write 4 (cstr r.out), ()⟩], rfl, hopen, ?_, ?_, ?_⟩,
    ?_, ?_⟩
  · refine Exec.perform_bind ?_
    dsimp only
    rw [handleClient_wire (c := .status) hauth (by decide) hsp hwire, if_pos rfl]
    exact hrun
  · refine ⟨fun t ht => ?_, ?_⟩
    · obtain rfl := Option.some.inj ht
      exact hlen
    · rw [hnext]
      exact answered_append.mpr ⟨noFiles_answered s, List.length_replicate, trivial, trivial⟩
  · show ((kernel fun _ => True).after ((kernel fun _ => True).next _ _ _) _).sent = _
    rw [hnext, after_append, hkept]
    rfl
  · rw [hwhole]
    exact ideal_ne_nil hstatus.rows.2
  · have hshort := hstatus.rows.1.1
    rw [hwhole]
    omega

/-- An agent and its token. -/
def keyed : Agent := { gToken := .put 96 (lit "0123456789abcdef") }

def keyedWire : Bytes := cut 384 (lit "AUTH " ++ keyed.gToken.val ++ sp :: (lit "STATUS" ++ [10]))

theorem keyedWire_eq : bridgeWire keyed.gToken (lit "STATUS") = some keyedWire := by
  rw [bridgeWire, if_neg (by decide), if_neg (by decide)]
  rfl

theorem keyed_status : sp ∉ keyed.gToken.val ∧ Serves keyed 0 keyedWire (ideal noFilesReport) ∧
    Requests keyed.gToken (lit "STATUS") 2048 keyedWire (ideal noFilesReport)
      (bridgeReply (ideal noFilesReport) 2048) := by
  have hsp : sp ∉ keyed.gToken.val := by decide
  have hshort : keyedWire.length < 384 := length_cut_lt (by norm_num) _
  obtain ⟨hserve, hne, hlen⟩ := noFiles_serves rfl hsp keyedWire_eq (by omega)
  exact ⟨hsp, hserve, requests_onePiece keyedWire_eq hne (show _ < 2048 - 1 from hlen)⟩

theorem status_reads_back_keyed : ∃ text r tr as ctx sec enforce net,
    Requests keyed.gToken (lit "STATUS") 2048 keyedWire text r ∧ Exec statusCalls tr (some as) ∧
      StatusReport ctx sec enforce net as ∧ text = ideal as ∧ (Plain as → r.1 = 0 ∧ ∀ out,
        bridgeField r.2 (lit "context") out 192 = ((ctx.length : ℤ), ctx) ∧
        bridgeField r.2 (lit "seccomp") out 32 = ((sec.length : ℤ), sec) ∧
        bridgeField r.2 (lit "selinux_enforce") out 64 = ((enforce.length : ℤ), enforce) ∧
        bridgeField r.2 (lit "proc_net") out 32 = (1, ofNat (bit net))) := by
  obtain ⟨hsp, hserve, hreq⟩ := keyed_status
  obtain ⟨tr, as, ctx, sec, enforce, net, h⟩ := status_reads_back rfl hsp rfl hreq hserve
  exact ⟨_, _, tr, as, ctx, sec, enforce, net, hreq, h⟩

theorem exchange_token_keyed : ∃ text r, Requests keyed.gToken (lit "STATUS") 2048 keyedWire text r ∧
    r = bridgeReply text 2048 := by
  obtain ⟨hsp, hserve, hreq⟩ := keyed_status
  exact ⟨_, _, hreq, ((exchange_token (c := .status) rfl (by decide) hsp (by norm_num) hreq hserve).2
    rfl).1⟩

end ZorinTrust.Bridge
