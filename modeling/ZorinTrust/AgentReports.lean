import ZorinTrust.AgentSafety

/-!
# The reports of the shell agent

What each command gathers, in the order of the source, and how much room its lines can take.
-/

namespace ZorinTrust.Bridge

open CText Numeral Calls Calls.Monitor

variable {s : Proc} {admits : Bytes → Prop} [Fact (s.Admitted admits)]

theorem fits_mono {c d : ℕ} {t : Bytes} (h : Fits c t) (hcd : c ≤ d) : Fits d t :=
  ⟨h.1.trans_le hcd, h.2⟩

theorem fits_getD {c : ℕ} (hc : 2 ≤ c) {o : Option Bytes} (h : ∀ v ∈ o, Fits c v ∧ 10 ∉ v) :
    Fits c (o.getD (lit "?")) ∧ 10 ∉ o.getD (lit "?") := by
  cases o with
  | none => exact ⟨⟨by rw [Option.getD_none]; exact hc, by decide⟩, by decide⟩
  | some v => exact h v rfl

/-- One line or more, of `n` bytes at most. -/
def Rows (n : ℕ) (as : List Append) : Prop := Within n as ∧ as ≠ []

theorem rows_flatten {β : Type} {m n : ℕ} {bs : List β} {rows : List (List Append)}
    (h : List.Forall₂ (fun _ as => Rows n as) bs rows) (hbs : bs ≠ [] ∧ bs.length * n ≤ m) :
    Rows m rows.flatten := by
  refine ⟨(within_flatten (h.imp fun _ _ hrow => hrow.1)).mono hbs.2, ?_⟩
  cases h with
  | nil => exact absurd rfl hbs.1
  | cons hrow _ =>
    rw [List.flatten_cons]
    exact List.append_ne_nil_of_left_ne_nil hrow.2 _

theorem isLong_of_abs {x : ℤ} (h : -2 ^ 31 ≤ x ∧ x ≤ 2 ^ 31) : IsLong x := by
  obtain ⟨h1, h2⟩ := h
  constructor <;> omega

theorem isLong_bit (b : Bool) : IsLong (bit b) := by
  cases b <;> constructor <;> norm_num [bit]

theorem isLong_entries {n : ℤ} (h : -2 ^ 31 ≤ n ∧ n ≤ 2 ^ 31) : IsLong (entries n) := by
  obtain ⟨h1, h2⟩ := h
  unfold entries
  split_ifs <;> constructor <;> omega

/-- The lines of a `STATUS` report whose values fit their buffers. -/
def StatusReport (ctx sec enforce : Bytes) (net : Bool) (as : List Append) : Prop :=
  ∃ mode nnp caps nodes uid gid pid vopen,
    as = [.kv (lit "mode") (some mode), .i (lit "uid") uid, .i (lit "gid") gid, .i (lit "pid") pid,
      .kv (lit "context") (some ctx), .kv (lit "seccomp") (some sec), .kv (lit "no_new_privs") (some nnp),
      .kv (lit "capeff") (some caps), .kv (lit "binder_nodes") (some nodes),
      .i (lit "vndbinder_open") (bit vopen), .i (lit "proc_net") (bit net),
      .kv (lit "selinux_enforce") (some enforce)] ∧
    (IsLong uid ∧ IsLong gid ∧ IsLong pid) ∧ (Fits 192 mode ∧ 10 ∉ mode) ∧ Fits 192 ctx ∧
    (Fits 32 sec ∧ 10 ∉ sec) ∧ (Fits 32 nnp ∧ 10 ∉ nnp) ∧ (Fits 64 caps ∧ 10 ∉ caps) ∧
    (Fits 192 nodes ∧ 10 ∉ nodes) ∧ Fits 32 enforce ∧ Trimmed enforce

theorem restores_statusCalls :
    (kernel admits).Restores s statusCalls fun as => ∃ ctx sec enforce net, StatusReport ctx sec enforce net as := by
  unfold statusCalls
  refine (restores_statusValue _ (by norm_num)).bind fun sec hsec => ?_
  refine (restores_statusValue _ (by norm_num)).bind fun caps hcaps => ?_
  refine (restores_statusValue _ (by norm_num)).bind fun nnp hnnp => ?_
  refine (restores_getContext (by norm_num)).bind fun ctx hctx => ?_
  refine (restores_access (by decide)).bind fun b _ => ?_
  refine (restores_access (by decide)).bind fun hb _ => ?_
  refine (restores_access (by decide)).bind fun vb _ => ?_
  refine (restores_access (by decide)).bind fun net _ => ?_
  refine restores_vndbinderOpen.bind fun vopen _ => ?_
  refine (restores_selinuxEnforce (by norm_num)).bind fun enforce henforce => ?_
  refine restores_getuid.bind fun u _ => ?_
  refine restores_getuid.bind fun uid huid => ?_
  refine restores_getgid.bind fun gid hgid => ?_
  refine restores_getpid.bind fun pid hpid => ?_
  have hmode : Fits 192 (cut 192 (lit (if u = 0 then "root" else "adb-shell"))) ∧
      10 ∉ cut 192 (lit (if u = 0 then "root" else "adb-shell")) := by
    split_ifs <;> exact ⟨⟨by decide, by decide⟩, by decide⟩
  have hnodes : ∀ b hb vb : Bool,
      Fits 192 (cut 192 (ofNat (bit b) ++ lit "/" ++ ofNat (bit hb) ++ lit "/" ++ ofNat (bit vb))) ∧
        10 ∉ cut 192 (ofNat (bit b) ++ lit "/" ++ ofNat (bit hb) ++ lit "/" ++ ofNat (bit vb)) := by
    unfold Fits
    decide
  exact restores_pure ⟨ctx, _, enforce, net, _, _, _, _, uid, gid, pid, vopen, rfl, ⟨huid, hgid, hpid⟩,
    hmode, hctx, fits_getD (by norm_num) hsec, fits_getD (by norm_num) hnnp,
    fits_getD (by norm_num) hcaps, hnodes b hb vb, henforce⟩

/-- A `STATUS` report always has room in its buffer. -/
theorem StatusReport.rows {ctx sec enforce : Bytes} {net : Bool} {as : List Append}
    (h : StatusReport ctx sec enforce net as) : Rows 1000 as := by
  obtain ⟨mode, nnp, caps, nodes, uid, gid, pid, vopen, rfl, ⟨huid, hgid, hpid⟩, hmode, hctx, hsec, hnnp,
    hcaps, hnodes, henforce⟩ := h
  refine ⟨?_, by simp⟩
  exact ((within_kv (by decide) hmode.1).cons ((within_i (by decide) huid).cons
    ((within_i (by decide) hgid).cons ((within_i (by decide) hpid).cons
      ((within_kv (by decide) hctx).cons ((within_kv (by decide) hsec.1).cons
        ((within_kv (by decide) hnnp.1).cons ((within_kv (by decide) hcaps.1).cons
          ((within_kv (by decide) hnodes.1).cons ((within_i (by decide) (isLong_bit vopen)).cons
            ((within_i (by decide) (isLong_bit net)).cons (within_kv (by decide) henforce.1)))))))))))).mono
              (by decide)

theorem within_uname {u : Option Utsname} {cap : ℕ} (hcap : 0 < cap)
    (hu : ∀ n ∈ u, ∀ b ∈ [n.sysname, n.release, n.machine], b.length < 65 ∧ 0 ∉ b) :
    Within (cap + 7) ((u.map fun u => Append.kv (lit "kernel") (some (cut cap
      (u.sysname ++ Lines.sp :: (u.release ++ lit " / " ++ u.machine))))).toList) := by
  cases u with
  | none => exact within_nil.mono (Nat.zero_le _)
  | some n =>
    have h := hu n rfl
    simp only [List.mem_cons, List.not_mem_nil, or_false, forall_eq_or_imp, forall_eq] at h
    refine (within_kv (by decide) (fits_cut hcap ?_)).mono (by have : (lit "kernel").length = 6 := rfl; omega)
    simp [h.1.2, h.2.1.2, h.2.2.2, Lines.sp]
    decide

theorem restores_kernelCalls : (kernel admits).Restores s kernelCalls (Rows 5000) := by
  unfold kernelCalls
  refine restores_uname.bind fun u hu => ?_
  refine restores_getpagesize.bind fun page hpage => ?_
  refine (restores_readKv (by decide) (by decide) (by norm_num)).bind fun version hversion => ?_
  refine (restores_readKv (by decide) (by decide) (by norm_num)).bind fun uptime huptime => ?_
  refine (restores_readKv (by decide) (by decide) (by norm_num)).bind fun loadavg hload => ?_
  refine (restores_readKv (by decide) (by decide) (by norm_num)).bind fun osrelease hrelease => ?_
  refine (restores_readKv (by decide) (by decide) (by norm_num)).bind fun hostname hhost => ?_
  have htail := (((((within_i (k := lit "page_size") (by decide) hpage).append hversion).append
    huptime).append hload).append hrelease).append hhost
  cases u with
  | none =>
    have hhead : Within 20 [Append.kv (lit "kernel") (some (lit "unavailable"))] :=
      (within_kv (by decide) ⟨by decide, by decide⟩ : Within (_ + 12 + 1) _).mono (by decide)
    exact restores_pure ⟨by simpa using (hhead.append htail).mono (by decide), by simp⟩
  | some n =>
    have h := hu n rfl
    simp only [List.mem_cons, List.not_mem_nil, or_false, forall_eq_or_imp, forall_eq] at h
    have hname : Fits 512 (cut 512 (n.sysname ++ Lines.sp :: n.release)) := by
      refine fits_cut (by norm_num) (List.not_mem_append h.1.2 fun h0 => ?_)
      rcases List.mem_cons.mp h0 with h0 | h0
      · exact absurd h0 (by decide)
      · exact h.2.1.2 h0
    have hmachine : Within 80 [Append.kv (lit "machine") (some n.machine)] :=
      (within_kv (by decide) h.2.2).mono (by decide)
    exact restores_pure
      ⟨by simpa using (((within_kv (by decide) hname).append hmachine).append htail).mono (by decide), by simp⟩

theorem length_cstr_lt {m : Bytes} (h : 0 ∈ m) : (cstr m).length < m.length := by
  refine lt_of_le_of_ne (cstr_isPrefix m).length_le fun heq => ?_
  exact cstr_eq_self_iff.mp ((cstr_isPrefix m).eq_of_length heq) h

theorem restores_networkInterfaces : (kernel admits).Restores s networkInterfaces (Fits 512) := by
  refine (restores_readSmall (by decide) (by norm_num)).bind fun r hr => ?_
  dsimp only
  split_ifs
  · refine (restores_garbage 512).bind fun out hout => ?_
    have hparse : ∃ m, parseInterfaces (r.2.length + 1) r.2 out 512 = some m ∧ m.length = 512 ∧ 0 ∈ m := by
      obtain ⟨st, hrun, hst⟩ := interfacesLoop_holds (r.2.length + 1) 0 r.2 (Nat.lt_succ_self _)
        (Buffer.holds_nil hout)
      obtain ⟨rest, hstore, hfin⟩ := hst.finish (by norm_num)
      exact ⟨_, by rw [parseInterfaces, hrun, Option.bind_some, hstore], hfin.length_eq, by simp⟩
    refine (restores_orFault hparse).bind fun m hm => restores_pure ⟨?_, zero_notMem_cstr m⟩
    rw [← hm.1]
    exact length_cstr_lt hm.2
  · exact restores_pure (fits_errnoText (by norm_num) _)

theorem fits_routeFirst {route p : Bytes} {cap : ℕ} (h : Fits cap route) (hp : routeFirst route = some p) :
    Fits cap p := by
  unfold routeFirst at hp
  split at hp
  · cases hp
  · rename_i c rest hdrop
    obtain rfl := Option.some.inj hp
    have hsuffix : rest <:+ route := (List.suffix_cons c rest).trans (hdrop ▸ List.dropWhile_suffix _)
    have hhead := List.takeWhile_prefix (l := rest) (· != 10)
    refine fits_trim ⟨?_, fun h0 => h.2 (hsuffix.subset (hhead.subset h0))⟩
    exact (hhead.length_le.trans hsuffix.length_le).trans_lt h.1

theorem restores_networkCalls (fuel : ℕ) : (kernel admits).Restores s (networkCalls fuel) (Rows 1800) := by
  unfold networkCalls
  refine restores_networkInterfaces.bind fun ifs hifs => ?_
  refine (restores_countFileLines fuel (by decide)).bind fun route hroute => ?_
  refine (restores_countFileLines fuel (by decide)).bind fun tcp htcp => ?_
  refine (restores_countFileLines fuel (by decide)).bind fun tcp6 htcp6 => ?_
  refine (restores_countFileLines fuel (by decide)).bind fun udp hudp => ?_
  refine (restores_countFileLines fuel (by decide)).bind fun udp6 hudp6 => ?_
  refine (restores_readSmall (by decide) (by norm_num)).bind fun r hr => ?_
  have hfirst : Within 1040 (if 0 ≤ r.1 then
      ((routeFirst r.2).map fun p => Append.kv (lit "route_first") (some p)).toList else []) := by
    split_ifs
    · cases hp : routeFirst r.2 with
      | none => exact within_nil.mono (Nat.zero_le _)
      | some p => exact (within_kv (by decide) (fits_routeFirst hr hp)).mono (by decide)
    · exact within_nil.mono (Nat.zero_le _)
  exact restores_pure ⟨((within_kv (by decide) hifs).cons ((within_i (by decide) (isLong_entries hroute)).cons
    ((within_i (by decide) (isLong_entries htcp)).cons ((within_i (by decide) (isLong_entries htcp6)).cons
      ((within_i (by decide) (isLong_entries hudp)).cons
        (within_i (by decide) (isLong_entries hudp6))))))).append hfirst |>.mono (by decide), by simp⟩

theorem restores_securityCalls : (kernel admits).Restores s securityCalls (Rows 2600) := by
  unfold securityCalls
  refine (restores_getContext (by norm_num)).bind fun ctx hctx => ?_
  refine (restores_statusValue _ (by norm_num)).bind fun sec hsec => ?_
  refine (restores_statusValue _ (by norm_num)).bind fun nnp hnnp => ?_
  refine (restores_statusValue _ (by norm_num)).bind fun caps hcaps => ?_
  refine (restores_selinuxEnforce (by norm_num)).bind fun enforce henforce => ?_
  have hprops : ∀ p ∈ securityProperties, (kernel admits).Restores s (propertyKv p.1 p.2) (Within 110) := by
    intro p hp
    have hok : ∀ p ∈ securityProperties, 0 ∉ lit p.2 ∧ p.1 ∈ agentProperties ∧ (lit p.2).length ≤ 17 := by
      decide
    obtain ⟨h0, hprop, hlen⟩ := hok p hp
    exact (restores_propertyKv h0 hprop).mono fun as has => has.mono (by omega)
  have hsysctls : ∀ p ∈ securitySysctls, (kernel admits).Restores s (readSysctlKv p.1 p.2) (Within 160) := by
    intro p hp
    have hok : ∀ p ∈ securitySysctls, 0 ∉ lit p.1 ∧ (p.2, .rdonly) ∈ agentFiles ∧
        (lit p.1).length ≤ 31 := by
      decide
    obtain ⟨h0, hpath, hlen⟩ := hok p hp
    exact (restores_readSysctlKv h0 hpath).mono fun as has => has.mono (by omega)
  refine (Restores.each hprops).bind fun props hp => (Restores.each hsysctls).bind fun sysctls hs => ?_
  exact restores_pure ⟨(((within_kv (by decide) hctx).cons
    ((within_kv (by decide) (fits_getD (by norm_num) hsec).1).cons
      ((within_kv (by decide) (fits_getD (by norm_num) hnnp).1).cons
        ((within_kv (by decide) (fits_getD (by norm_num) hcaps).1).cons
          (within_kv (by decide) henforce.1))))).append (within_flatten hp)).append (within_flatten hs)
            |>.mono (by decide), by simp⟩

theorem restores_filesystemCalls (fuel : ℕ) :
    (kernel admits).Restores s (filesystemCalls fuel) (Rows 6000) := by
  unfold filesystemCalls
  refine (restores_countFileLines fuel (by decide)).bind fun n hn => ?_
  refine (restores_readKv (by decide) (by decide) (by norm_num)).bind fun cgroup hcgroup => ?_
  refine (restores_readlinkKv (by decide) (by decide) (by norm_num)).bind fun mnt hmnt => ?_
  refine (restores_readlinkKv (by decide) (by decide) (by norm_num)).bind fun pid hpid => ?_
  refine (restores_readlinkKv (by decide) (by decide) (by norm_num)).bind fun net hnet => ?_
  refine (restores_readlinkKv (by decide) (by decide) (by norm_num)).bind fun user huser => ?_
  refine (restores_readSmall (by decide) (by norm_num)).bind fun r hr => ?_
  have htypes : Within 60 (if 0 ≤ r.1 then
      [Append.i (lit "filesystem_types_visible") (r.2.count 10 + 1)] else []) := by
    split_ifs
    · have hcount := List.count_le_length (a := 10) (l := r.2)
      have hlen := hr.1
      exact (within_i (by decide) (by constructor <;> omega)).mono (by decide)
    · exact within_nil.mono (Nat.zero_le _)
  exact restores_pure ⟨((((((within_i (by decide) (isLong_of_abs hn)).append hcgroup).append hmnt).append
    hpid).append hnet).append huser).append htypes |>.mono (by decide), by simp⟩

theorem restores_processCalls : (kernel admits).Restores s processCalls (Rows 6000) := by
  unfold processCalls
  refine restores_getpid.bind fun pid hpid => ?_
  refine restores_getuid.bind fun uid huid => ?_
  refine restores_getgid.bind fun gid hgid => ?_
  refine restores_gettid.bind fun tid htid => ?_
  have hfields : ∀ p ∈ processFields, (kernel admits).Restores s (statusKv p.1 p.2) (Within 540) := by
    intro p hp
    have hok : ∀ p ∈ processFields, 0 ∉ lit p.2 ∧ (lit p.2).length ≤ 27 := by decide
    obtain ⟨h0, hlen⟩ := hok p hp
    exact (restores_statusKv p.1 p.2 h0).mono fun as has => has.mono (by omega)
  refine (Restores.each hfields).bind fun fields hf => ?_
  refine (restores_readKv (by decide) (by decide) (by norm_num)).bind fun loadavg hload => ?_
  exact restores_pure ⟨(((within_i (by decide) hpid).cons ((within_i (by decide) huid).cons
    ((within_i (by decide) hgid).cons (within_i (by decide) htid)))).append (within_flatten hf)).append
      hload |>.mono (by decide), by simp⟩

theorem restores_reportCalls : (kernel admits).Restores s reportCalls (Rows 1000) := by
  unfold reportCalls
  refine (restores_getContext (by norm_num)).bind fun ctx hctx => ?_
  refine (restores_statusValue _ (by norm_num)).bind fun sec hsec => ?_
  refine (restores_statusValue _ (by norm_num)).bind fun caps hcaps => ?_
  refine (restores_selinuxEnforce (by norm_num)).bind fun enforce henforce => ?_
  refine restores_uname.bind fun u hu => ?_
  refine restores_getuid.bind fun uid huid => ?_
  refine restores_getgid.bind fun gid hgid => ?_
  refine restores_getpid.bind fun pid hpid => ?_
  refine (restores_access (by decide)).bind fun tcp _ => ?_
  refine restores_vndbinderOpen.bind fun vopen _ => ?_
  have htcp : Fits 9 (lit (if tcp then "VISIBLE" else "DENIED")) := by
    cases tcp <;> exact ⟨by decide, by decide⟩
  have hopen : Fits 9 (lit (if vopen then "YES" else "NO")) := by
    cases vopen <;> exact ⟨by decide, by decide⟩
  exact restores_pure ⟨(within_uname (by norm_num) hu).append ((within_i (by decide) huid).cons
    ((within_i (by decide) hgid).cons ((within_i (by decide) hpid).cons
      ((within_kv (by decide) hctx).cons ((within_kv (by decide) (fits_getD (by norm_num) hsec).1).cons
        ((within_kv (by decide) (fits_getD (by norm_num) hcaps).1).cons
          ((within_kv (by decide) henforce.1).cons ((within_kv (by decide) htcp).cons
            (within_kv (by decide) hopen))))))))) |>.mono (by decide), by simp⟩

/-- The probes give the process back, but for children that could not be waited for. -/
theorem wp_probesCalls (hparent : s.inChild = false) :
    (kernel admits).wp probesCalls (fun as s' => s.Left s' ∧ Rows 1400 as) s := by
  unfold probesCalls
  have hrows : ∀ p ∈ probeKeys.zipIdx, ∀ t, s.Left t → (kernel admits).wp (do
      let v ← runProbeKind (p.2 + 1) 128
      return [Append.kv (lit p.1) (some v)]) (fun as s' => s.Left s' ∧ Rows 150 as) t := by
    rintro p hp t ⟨pids, rfl⟩
    have hok : ∀ p ∈ probeKeys.zipIdx, 0 ∉ lit p.1 ∧ (lit p.1).length ≤ 21 := by decide
    obtain ⟨h0, hlen⟩ := hok p hp
    refine wp_bind.mpr (wp_mono (fun v s' hv => ?_) (wp_runProbeKind (s := s.left pids) (by norm_num) hparent))
    exact ⟨.trans ⟨pids, rfl⟩ hv.1, (within_kv h0 hv.2).mono (by omega), by simp⟩
  exact wp_bind.mpr (wp_mono (fun rows _ ⟨hleft, hr⟩ => ⟨hleft, rows_flatten hr (by decide)⟩)
    (wp_each hrows (.refl s)))

theorem restores_procfsCalls (fuel : ℕ) : (kernel admits).Restores s (procfsCalls fuel) (Rows 4000) := by
  unfold procfsCalls
  have hpaths : ∀ p ∈ procfsPaths, (kernel admits).Restores s (pathVisibility p.1 p.2) (Within 269) := by
    intro p hp
    have hok : ∀ p ∈ procfsPaths, 0 ∉ lit p.1 ∧ (p.2, .rdonly) ∈ agentFiles ∧ (lit p.1).length ≤ 12 := by
      decide
    obtain ⟨h0, hpath, hlen⟩ := hok p hp
    exact (restores_pathVisibility h0 hpath).mono fun as has => has.mono (by omega)
  have hlinks : ∀ p ∈ procfsLinks, (kernel admits).Restores s (linkOrDenied p.1 p.2) (Within 524) := by
    intro p hp
    have hok : ∀ p ∈ procfsLinks, 0 ∉ lit p.1 ∧ p.2 ∈ agentLinks ∧ (lit p.1).length ≤ 11 := by decide
    obtain ⟨h0, hpath, hlen⟩ := hok p hp
    exact (restores_linkOrDenied h0 hpath).mono fun as has => has.mono (by omega)
  refine (Restores.each hpaths).bind fun paths hp => ?_
  refine (restores_countFileLines fuel (by decide)).bind fun modules hm => ?_
  refine (restores_countFileLines fuel (by decide)).bind fun interrupts hi => ?_
  refine (Restores.each hlinks).bind fun links hl => ?_
  exact restores_pure ⟨((within_flatten hp).append ((within_i (by decide) (isLong_of_abs hm)).cons
    (within_i (by decide) (isLong_of_abs hi)))).append (within_flatten hl) |>.mono (by decide), by simp⟩

end ZorinTrust.Bridge
