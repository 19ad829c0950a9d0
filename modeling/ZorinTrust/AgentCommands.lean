import ZorinTrust.AgentKernel

/-!
# The commands of the shell agent

The functions of `agent.c` that look at the device, as programs over the calls of `Sys`.  A command
first gathers what it reports and then renders it with `append_kv` and `append_i`; the rendering makes no
call, so `send_report` does it at the end.  A loop that reads a file to its end is followed for `fuel` turns.
-/

namespace ZorinTrust.Bridge

open CText Numeral Lines Calls

/-- `last_errno`. -/
def lastErrno : AgentM ℤ := sys .errno

/-- `"ERRNO %d"` in a buffer of `cap` bytes. -/
def errnoText (cap : ℕ) (e : ℤ) : Bytes := cut cap (lit "ERRNO " ++ ofInt e)

/-- `read_small(path, out, cap)`: its code and `out`. -/
def readSmall (path : String) (cap : ℕ) : AgentM (ℤ × Bytes) := do
  let fd ← sys (.openFile path .rdonly)
  if fd < 0 then
    let e ← lastErrno
    return (-e, [])
  else
    let got ← sys (.read fd (cap - 1))
    let e ← lastErrno
    sys (.close fd)
    match got with
    | none => return (-e, [])
    | some b => return (b.length, trim (cstr b))

/-- The loop of `count_file_lines`; no count when the last `read` failed. -/
def countLoop (fd : ℤ) : ℕ → ℕ → AgentM (Option ℕ)
  | 0, _ => .cut
  | fuel + 1, lines => do
    match ← sys (.read fd 2048) with
    | none => return none
    | some [] => return some lines
    | some b => countLoop fd fuel (lines + b.count 10)

/-- `count_file_lines`. -/
def countFileLines (fuel : ℕ) (path : String) : AgentM ℤ := do
  let fd ← sys (.openFile path .rdonly)
  if fd < 0 then
    let e ← lastErrno
    return -e
  else
    let lines ← countLoop fd fuel 0
    let e ← lastErrno
    sys (.close fd)
    match lines with
    | none => return -e
    | some n => return wrap 32 n

/-- `status_value(key, out, cap)` on the text of `/proc/self/status`: the value behind the key. -/
def valueAfter (text : Bytes) (key : String) (cap : ℕ) : Option Bytes :=
  (text.dropInfix? (lit key)).map fun (_, p) =>
    trim (((p.dropWhile fun c => c == sp || c == 9).takeWhile (· != 10)).take (cap - 1))

/-- `status_value`: what it stores, `none` when it leaves `out` alone. -/
def statusValue (key : String) (cap : ℕ) : AgentM (Option Bytes) := do
  let (rc, b) ← readSmall "/proc/self/status" 8192
  if rc < 0 then return none
  else return valueAfter b key cap

/-- `get_context`. -/
def getContext (cap : ℕ) : AgentM Bytes := do
  let (rc, out) ← readSmall "/proc/self/attr/current" cap
  if rc < 0 then return errnoText cap (-rc)
  else return out

/-- `prop_get(key, out, cap)`: its code and `out`. -/
def propGet (key : String) (cap : ℕ) : AgentM (ℕ × Bytes) := do
  match ← sys (.property key) with
  | none => return (0, [])
  | some b => return (b.length, cut cap (cstr b))

/-- `readlink_small(p, out, cap)`. -/
def readlinkSmall (path : String) (cap : ℕ) : AgentM (ℤ × Bytes) := do
  match ← sys (.readlink path (cap - 1)) with
  | none =>
    let e ← lastErrno
    return (-e, [])
  | some b => return (b.length, cstr b)

/-- `send_text`. -/
def sendText (fd : ℤ) (s : Bytes) : AgentM Unit := sys (.write fd s)

/-- The calls of `append_kv` and `append_i` on a buffer of `cap` bytes, and the text that is sent. -/
def sendReport (fd : ℤ) (cap : ℕ) (as : List Append) : AgentM Unit := do
  let out ← sys (.garbage cap)
  let r ← orFault (appendAll cap (Report.start out) as)
  sendText fd (cstr r.out)

/-- `append_kv` with the text of a file when `read_small` gives one. -/
def readKv (key path : String) (cap : ℕ) : AgentM (List Append) := do
  let (rc, v) ← readSmall path cap
  if 0 ≤ rc then return [.kv (lit key) (some v)]
  else return []

/-- `read_sysctl_kv`. -/
def readSysctlKv (key path : String) : AgentM (List Append) := do
  let (rc, v) ← readSmall path 128
  if 0 ≤ rc then return [.kv (lit key) (some v)]
  else return [.kv (lit key) (some (errnoText 128 (-rc)))]

/-- `append_kv` with the target of a link when it can be read. -/
def readlinkKv (key path : String) (cap : ℕ) : AgentM (List Append) := do
  let (rc, v) ← readlinkSmall path cap
  if 0 ≤ rc then return [.kv (lit key) (some v)]
  else return []

/-- `/sys/fs/selinux/enforce` in a buffer of `cap` bytes, or the error. -/
def selinuxEnforce (cap : ℕ) : AgentM Bytes := do
  let (erc, enforce) ← readSmall "/sys/fs/selinux/enforce" cap
  if erc < 0 then return errnoText cap (-erc)
  else return enforce

/-- `%d` of a truth value. -/
def bit (b : Bool) : ℕ := if b then 1 else 0

/-- `command_hello`. -/
def commandHello (g : Agent) (fd : ℤ) : AgentM Unit :=
  sendText fd (lit (if g.gRequireAuth then "ZORIN_ADB_CORE/3 auth=required\n"
    else "ZORIN_ADB_CORE/3 auth=disabled\n"))

/-- `/dev/vndbinder` can be opened. -/
def vndbinderOpen : AgentM Bool := do
  let vfd ← sys (.openFile "/dev/vndbinder" .rdwr)
  if 0 ≤ vfd then
    sys (.close vfd)
    return true
  else return false

/-- What `command_status` reports. -/
def statusCalls : AgentM (List Append) := do
  let seccomp := (← statusValue "Seccomp:" 32).getD (lit "?")
  let capeff := (← statusValue "CapEff:" 64).getD (lit "?")
  let nnp := (← statusValue "NoNewPrivs:" 32).getD (lit "?")
  let ctx ← getContext 192
  let b ← sys (.access "/dev/binder")
  let hb ← sys (.access "/dev/hwbinder")
  let vb ← sys (.access "/dev/vndbinder")
  let net ← sys (.access "/proc/net/tcp")
  let vopen ← vndbinderOpen
  let enforce ← selinuxEnforce 32
  let t := cut 192 (lit (if (← sys .getuid) = 0 then "root" else "adb-shell"))
  let uid ← sys .getuid
  let gid ← sys .getgid
  let pid ← sys .getpid
  let nodes := cut 192 (ofNat (bit b) ++ lit "/" ++ ofNat (bit hb) ++ lit "/" ++ ofNat (bit vb))
  return [.kv (lit "mode") (some t), .i (lit "uid") uid, .i (lit "gid") gid, .i (lit "pid") pid,
    .kv (lit "context") (some ctx), .kv (lit "seccomp") (some seccomp), .kv (lit "no_new_privs") (some nnp),
    .kv (lit "capeff") (some capeff), .kv (lit "binder_nodes") (some nodes),
    .i (lit "vndbinder_open") (bit vopen), .i (lit "proc_net") (bit net),
    .kv (lit "selinux_enforce") (some enforce)]

/-- `command_status`. -/
def commandStatus (fd : ℤ) : AgentM Unit := do sendReport fd 2048 (← statusCalls)

/-- A service that answers: the comma, when it is not the first, and its name. -/
def nameFound (s : Services) (n : Bytes) : Option Services :=
  let s1 : Services := { s with found := s.found + 1 }
  (if s.found ≠ 0 then s1.print (lit ",") else some s1).bind (Services.print · n)

/-- The loop of `command_services` over the names. -/
def servicesTurns : List String → Services → AgentM Services
  | [], s => pure s
  | n :: ns, s => do
    if ← sys (.checkService n) then
      let pr ← sys .ping
      sys .decStrong
      if pr ≠ 0 then servicesTurns ns { s with pingFail := s.pingFail + 1 }
      else
        let s2 ← orFault (nameFound s (lit n))
        if s2.pos > 4096 - 256 then return s2
        else servicesTurns ns s2
    else servicesTurns ns s

/-- `command_services`, whose names are `agentNames`. -/
def commandServicesOn (fd : ℤ) : AgentM Unit := do
  let out ← sys (.garbage 4096)
  let start : Services := { out := out, pos := 0, found := 0, pingFail := 0 }
  let s ← orFault (start.print (lit "tested=" ++ ofInt agentNames.length ++ lit "\nfound="))
  let s ← servicesTurns agentNames s
  let s ← orFault (s.print (lit "\ncount=" ++ ofInt s.found ++ lit "\nping_fail=" ++ ofInt s.pingFail ++ lit "\n"))
  sendText fd (cstr s.out)

/-- What `command_kernel` reports. -/
def kernelCalls : AgentM (List Append) := do
  let u ← sys .uname
  let head : List Append := match u with
    | some u => [.kv (lit "kernel") (some (cut 512 (u.sysname ++ sp :: u.release))),
        .kv (lit "machine") (some u.machine)]
    | none => [.kv (lit "kernel") (some (lit "unavailable"))]
  let page ← sys .getpagesize
  let version ← readKv "proc_version" "/proc/version" 1536
  let uptime ← readKv "uptime" "/proc/uptime" 512
  let loadavg ← readKv "loadavg" "/proc/loadavg" 512
  let osrelease ← readKv "osrelease" "/proc/sys/kernel/osrelease" 512
  let hostname ← readKv "hostname" "/proc/sys/kernel/hostname" 512
  return head ++ .i (lit "page_size") page :: version ++ uptime ++ loadavg ++ osrelease ++ hostname

/-- `command_kernel`. -/
def commandKernel (fd : ℤ) : AgentM Unit := do sendReport fd 4096 (← kernelCalls)

/-- The line count without the heading. -/
def entries (n : ℤ) : ℤ := if 0 < n then n - 1 else n

/-- The second line of `/proc/net/route`. -/
def routeFirst (route : Bytes) : Option Bytes :=
  match route.dropWhile (· != 10) with
  | [] => none
  | _ :: p => some (trim (p.takeWhile (· != 10)))

/-- The interfaces line of `command_network`. -/
def networkInterfaces : AgentM Bytes := do
  let (rc, b) ← readSmall "/proc/net/dev" 4096
  if 0 ≤ rc then
    let out ← sys (.garbage 512)
    let ifs ← orFault (parseInterfaces (b.length + 1) b out 512)
    return cstr ifs
  else return errnoText 512 (-rc)

/-- What `command_network` reports. -/
def networkCalls (fuel : ℕ) : AgentM (List Append) := do
  let ifs ← networkInterfaces
  let route ← countFileLines fuel "/proc/net/route"
  let tcp ← countFileLines fuel "/proc/net/tcp"
  let tcp6 ← countFileLines fuel "/proc/net/tcp6"
  let udp ← countFileLines fuel "/proc/net/udp"
  let udp6 ← countFileLines fuel "/proc/net/udp6"
  let (rc, text) ← readSmall "/proc/net/route" 1024
  let first : List Append := if 0 ≤ rc then
      ((routeFirst text).map fun p => Append.kv (lit "route_first") (some p)).toList
    else []
  return [.kv (lit "interfaces") (some ifs), .i (lit "route_lines") (entries route),
    .i (lit "tcp_entries") (entries tcp), .i (lit "tcp6_entries") (entries tcp6),
    .i (lit "udp_entries") (entries udp), .i (lit "udp6_entries") (entries udp6)] ++ first

/-- `command_network`. -/
def commandNetwork (fuel : ℕ) (fd : ℤ) : AgentM Unit := do sendReport fd 4096 (← networkCalls fuel)

/-- The properties of `command_security` and their keys. -/
def securityProperties : List (String × String) :=
  [("ro.boot.verifiedbootstate", "verified_boot"), ("ro.boot.vbmeta.device_state", "vbmeta_state"),
    ("ro.boot.flash.locked", "flash_locked"), ("ro.debuggable", "debuggable"), ("ro.secure", "ro_secure")]

/-- The sysctl files of `command_security`. -/
def securitySysctls : List (String × String) :=
  [("kptr_restrict", "/proc/sys/kernel/kptr_restrict"), ("dmesg_restrict", "/proc/sys/kernel/dmesg_restrict"),
    ("perf_event_paranoid", "/proc/sys/kernel/perf_event_paranoid"),
    ("unprivileged_bpf_disabled", "/proc/sys/kernel/unprivileged_bpf_disabled"),
    ("unprivileged_userfaultfd", "/proc/sys/vm/unprivileged_userfaultfd"),
    ("ptrace_scope", "/proc/sys/kernel/yama/ptrace_scope")]

/-- A property, or `not_exposed`. -/
def propertyKv (prop key : String) : AgentM (List Append) := do
  let (n, v) ← propGet prop 512
  if n ≠ 0 then return [.kv (lit key) (some v)]
  else return [.kv (lit key) (some (lit "not_exposed"))]

/-- What `command_security` reports. -/
def securityCalls : AgentM (List Append) := do
  let ctx ← getContext 192
  let sec := (← statusValue "Seccomp:" 32).getD (lit "?")
  let nnp := (← statusValue "NoNewPrivs:" 32).getD (lit "?")
  let caps := (← statusValue "CapEff:" 64).getD (lit "?")
  let enforce ← selinuxEnforce 512
  let props ← Prog.each (fun p : String × String => propertyKv p.1 p.2) securityProperties
  let sysctls ← Prog.each (fun p : String × String => readSysctlKv p.1 p.2) securitySysctls
  return [.kv (lit "context") (some ctx), .kv (lit "seccomp") (some sec), .kv (lit "no_new_privs") (some nnp),
    .kv (lit "capeff") (some caps), .kv (lit "selinux_enforce") (some enforce)] ++ props.flatten ++
      sysctls.flatten

/-- `command_security`. -/
def commandSecurity (fd : ℤ) : AgentM Unit := do sendReport fd 4096 (← securityCalls)

/-- What `command_filesystem` reports. -/
def filesystemCalls (fuel : ℕ) : AgentM (List Append) := do
  let n ← countFileLines fuel "/proc/self/mountinfo"
  let cgroup ← readKv "cgroup" "/proc/self/cgroup" 1024
  let mnt ← readlinkKv "ns_mnt" "/proc/self/ns/mnt" 1024
  let pid ← readlinkKv "ns_pid" "/proc/self/ns/pid" 1024
  let net ← readlinkKv "ns_net" "/proc/self/ns/net" 1024
  let user ← readlinkKv "ns_user" "/proc/self/ns/user" 1024
  let (rc, v) ← readSmall "/proc/filesystems" 1024
  let types : List Append := if 0 ≤ rc then [.i (lit "filesystem_types_visible") (v.count 10 + 1)] else []
  return .i (lit "mountinfo_lines") n :: cgroup ++ mnt ++ pid ++ net ++ user ++ types

/-- `command_filesystem`. -/
def commandFilesystem (fuel : ℕ) (fd : ℤ) : AgentM Unit := do sendReport fd 3072 (← filesystemCalls fuel)

/-- The lines of `/proc/self/status` that `command_process` reports. -/
def processFields : List (String × String) :=
  [("Threads:", "threads"), ("VmRSS:", "rss"), ("VmSize:", "vm_size"), ("TracerPid:", "tracer_pid"),
    ("Seccomp:", "seccomp"), ("NoNewPrivs:", "no_new_privs"), ("CapEff:", "cap_eff")]

/-- `append_kv` with the value of a status line when there is one. -/
def statusKv (field key : String) : AgentM (List Append) := do
  match ← statusValue field 512 with
  | some v => return [.kv (lit key) (some v)]
  | none => return []

/-- What `command_process` reports. -/
def processCalls : AgentM (List Append) := do
  let pid ← sys .getpid
  let uid ← sys .getuid
  let gid ← sys .getgid
  let tid ← sys .gettid
  let fields ← Prog.each (fun p : String × String => statusKv p.1 p.2) processFields
  let loadavg ← readKv "loadavg" "/proc/loadavg" 512
  return [.i (lit "pid") pid, .i (lit "uid") uid, .i (lit "gid") gid, .i (lit "tid") tid] ++
    fields.flatten ++ loadavg

/-- `command_process`. -/
def commandProcess (fd : ℤ) : AgentM Unit := do sendReport fd 3072 (← processCalls)

/-- What `command_report` reports below its heading. -/
def reportCalls : AgentM (List Append) := do
  let ctx ← getContext 192
  let sec := (← statusValue "Seccomp:" 32).getD (lit "?")
  let caps := (← statusValue "CapEff:" 64).getD (lit "?")
  let enforce ← selinuxEnforce 32
  let u ← sys .uname
  let kernel : List Append := (u.map fun u => Append.kv (lit "kernel") (some (cut 128
    (u.sysname ++ sp :: (u.release ++ lit " / " ++ u.machine))))).toList
  let uid ← sys .getuid
  let gid ← sys .getgid
  let pid ← sys .getpid
  let tcp ← sys (.access "/proc/net/tcp")
  let vopen ← vndbinderOpen
  return kernel ++ [.i (lit "uid") uid, .i (lit "gid") gid, .i (lit "pid") pid,
    .kv (lit "context") (some ctx), .kv (lit "seccomp") (some sec), .kv (lit "capeff") (some caps),
    .kv (lit "selinux_enforce") (some enforce),
    .kv (lit "proc_net_tcp") (some (lit (if tcp then "VISIBLE" else "DENIED"))),
    .kv (lit "vndbinder_open") (some (lit (if vopen then "YES" else "NO")))]

/-- The heading of `command_report`. -/
def reportHeading : Bytes := lit "ZORIN ADB CORE REPORT v3\n"

/-- The text of `command_report`: its heading is printed without the test of `append_kv`. -/
def sendHeaded (fd : ℤ) (as : List Append) : AgentM Unit := do
  let out ← sys (.garbage 3072)
  let r ← orFault ((appendLine 3072 (Report.start out) reportHeading).bind fun r => appendAll 3072 r as)
  sendText fd (cstr r.out)

/-- `command_report`. -/
def commandReport (fd : ℤ) : AgentM Unit := do sendHeaded fd (← reportCalls)

/-! ### Probes -/

/-- `probe_format` in a buffer of `cap` bytes. -/
def probeFormat (cap sig : ℕ) (got : Option ProbeResult) : Bytes :=
  if sig ≠ 0 then cut cap (if sig = 31 then lit "SIGSYS/SECCOMP" else lit "SIGNAL " ++ ofInt sig)
  else
    match got with
    | none => cut cap (lit "NO_RESULT")
    | some r => cut cap (if 0 ≤ r.rc then lit "OK rc=" ++ ofInt r.rc else lit "ERRNO " ++ ofInt r.err)

/-- `if (failed) err = last_errno()`. -/
def errnoWhen (failed : Bool) (err : ℤ) : AgentM ℤ := if failed then lastErrno else pure err

/-- The system call of a probe in the child. -/
def probeCall (kind : ℕ) : AgentM ProbeResult := do
  if kind = 9 then
    let nfd ← sys (.openFile "/proc/self/ns/net" .rdonly)
    if nfd < 0 then
      let err ← lastErrno
      return ⟨-1, err⟩
    else
      let rc ← sys (.setns nfd)
      let err ← errnoWhen (rc < 0) 0
      sys (.close nfd)
      return ⟨rc, err⟩
  else if 1 ≤ kind ∧ kind ≤ 8 then
    let rc ← sys (.probe kind)
    return ⟨rc, 0⟩
  else return ⟨-1, 0⟩

/-- The kinds 1 to 6 close what they have created. -/
def closeProbed (kind : ℕ) (rc : ℤ) : AgentM Unit :=
  if 1 ≤ kind ∧ kind ≤ 6 ∧ 0 ≤ rc then sys (.close rc) else pure ()

/-- The branch of `run_probe_kind` after `fork` returned 0. -/
def probeChild (kind : ℕ) (pfd : ℤ × ℤ) : AgentM Empty := do
  sys (.close pfd.1)
  let r ← probeCall kind
  let err ← errnoWhen (r.rc < 0 ∧ r.err = 0) r.err
  closeProbed kind r.rc
  sys (.writeResult pfd.2 ⟨r.rc, err⟩)
  sys (.close pfd.2)
  sys .exit

/-- The branch in the parent, whose child is `pid`. -/
def probeParent (cap : ℕ) (pid : ℤ) (pfd : ℤ × ℤ) : AgentM Bytes := do
  sys (.close pfd.2)
  if pid < 0 then
    let e ← lastErrno
    sys (.close pfd.1)
    return cut cap (lit "FORK ERRNO " ++ ofInt e)
  else
    let got ← sys (.readResult pfd.1)
    sys (.close pfd.1)
    match ← sys (.waitpid pid) with
    | none =>
      let e ← lastErrno
      return cut cap (lit "WAIT ERRNO " ++ ofInt e)
    | some st => return probeFormat cap (st &&& 0x7f) got

/-- `run_probe_kind`. -/
def runProbeKind (kind cap : ℕ) : AgentM Bytes := do
  match ← sys .pipe2 with
  | none =>
    let e ← lastErrno
    return cut cap (lit "PIPE ERRNO " ++ ofInt e)
  | some pfd =>
    let pid ← sys .fork
    if pid = 0 then
      let gone ← probeChild kind pfd
      nomatch gone
    else probeParent cap pid pfd

/-- The probes and their keys. -/
def probeKeys : List String :=
  ["io_uring_setup", "bpf_map_create", "perf_event_open", "userfaultfd", "pidfd_open", "memfd_create",
    "membarrier_query", "landlock_abi", "setns_self_net"]

/-- What `command_probes` reports. -/
def probesCalls : AgentM (List Append) := do
  let rows ← Prog.each (fun p : String × ℕ => do
    let v ← runProbeKind (p.2 + 1) 128
    return [Append.kv (lit p.1) (some v)]) probeKeys.zipIdx
  return rows.flatten

/-- `command_probes`. -/
def commandProbes (fd : ℤ) : AgentM Unit := do sendReport fd 3072 (← probesCalls)

/-! ### `/proc` -/

/-- `path_visibility`. -/
def pathVisibility (key path : String) : AgentM (List Append) := do
  let (rc, _) ← readSmall path 256
  if 0 ≤ rc then return [.kv (lit key) (some (lit "VISIBLE"))]
  else return [.kv (lit key) (some (errnoText 256 (-rc)))]

/-- The files of `command_procfs`. -/
def procfsPaths : List (String × String) :=
  [("pid1_status", "/proc/1/status"), ("pid1_cmdline", "/proc/1/cmdline"), ("modules", "/proc/modules"),
    ("interrupts", "/proc/interrupts"), ("cpuinfo", "/proc/cpuinfo"), ("meminfo", "/proc/meminfo"),
    ("vmstat", "/proc/vmstat"), ("pressure_cpu", "/proc/pressure/cpu")]

/-- The links of `command_procfs`. -/
def procfsLinks : List (String × String) :=
  [("pid1_ns_mnt", "/proc/1/ns/mnt"), ("pid1_ns_pid", "/proc/1/ns/pid"), ("pid1_ns_net", "/proc/1/ns/net")]

/-- A link, or `DENIED`. -/
def linkOrDenied (key path : String) : AgentM (List Append) := do
  let (rc, v) ← readlinkSmall path 512
  if 0 ≤ rc then return [.kv (lit key) (some v)]
  else return [.kv (lit key) (some (lit "DENIED"))]

/-- What `command_procfs` reports. -/
def procfsCalls (fuel : ℕ) : AgentM (List Append) := do
  let paths ← Prog.each (fun p : String × String => pathVisibility p.1 p.2) procfsPaths
  let modules ← countFileLines fuel "/proc/modules"
  let interrupts ← countFileLines fuel "/proc/interrupts"
  let links ← Prog.each (fun p : String × String => linkOrDenied p.1 p.2) procfsLinks
  return paths.flatten ++ [.i (lit "module_lines") modules, .i (lit "interrupt_lines") interrupts] ++
    links.flatten

/-- `command_procfs`. -/
def commandProcfs (fuel : ℕ) (fd : ℤ) : AgentM Unit := do sendReport fd 4096 (← procfsCalls fuel)

/-! ### Serving -/

/-- The function `handle_client` calls for a command. -/
def runCommand (g : Agent) (fuel : ℕ) (fd : ℤ) : AgentCommand → AgentM Unit
  | .hello => commandHello g fd
  | .status => commandStatus fd
  | .services => commandServicesOn fd
  | .kernel => commandKernel fd
  | .network => commandNetwork fuel fd
  | .security => commandSecurity fd
  | .filesystem => commandFilesystem fuel fd
  | .process => commandProcess fd
  | .report => commandReport fd
  | .probes => commandProbes fd
  | .procfs => commandProcfs fuel fd

/-- `handle_client(fd)`. -/
def handleConnection (g : Agent) (fuel : ℕ) (fd : ℤ) : AgentM Unit := do
  match ← sys (.read fd 511) with
  | none => return ()
  | some req =>
    match handleClient g req with
    | .closed => return ()
    | .refused => sendText fd (lit "ERR auth-required-or-failed\n")
    | .command c => runCommand g fuel fd c
    | .unknown => sendText fd (lit ("ERR unknown-command; allowed=HELLO,STATUS,SERVICES,KERNEL," ++
        "NETWORK,SECURITY,FILESYSTEM,PROCESS,REPORT,PROBES,PROCFS\n"))

/-- The accept loop of `main`, followed for some turns. -/
def serve (g : Agent) (fuel : ℕ) (s : ℤ) : ℕ → AgentM ℤ
  | 0 => .cut
  | n + 1 => do
    let c ← sys (.accept s)
    if c < 0 then serve g fuel s n
    else
      handleConnection g fuel c
      sys (.close c)
      serve g fuel s n

/-- The loop of `parse_port`. -/
def portDigits : Bytes → ℕ → ℕ
  | [], v => if 0 < v then v else 47471
  | c :: s, v =>
    if isDigit c then
      let v := v * 10 + (c.toNat - 48)
      if 65535 < v then 47471 else portDigits s v
    else if 0 < v then v else 47471

/-- `parse_port`. -/
def parsePort (s : Bytes) : ℕ := portDigits s 0

/-- The value of `port` after the argument loop of `main`. -/
def portArgs : List Bytes → ℕ → ℕ
  | [], port => port
  | [_], port => port
  | a :: b :: args, port =>
    if streq a (lit "--allow-root") then portArgs (b :: args) port
    else if streq a (lit "--insecure-localhost") then portArgs (b :: args) port
    else if streq a (lit "--port") then portArgs args (parsePort b)
    else if streq a (lit "--token") then portArgs args port
    else portArgs (b :: args) port

/-- The banner of `main`. -/
def banner (g : Agent) (port : ℕ) (uid pid : ℤ) : Bytes :=
  cut 256 (lit "Zorin ADB Shell Core v3 listening on 127.0.0.1:" ++ ofNat port ++ lit " uid=" ++ ofInt uid ++
    lit " pid=" ++ ofInt pid ++ lit " auth=" ++ lit (if g.gRequireAuth then "required" else "disabled") ++
      lit "\n")

/-- `main` for the arguments behind the program name. -/
def agentMain (args : List Bytes) (fuel turns : ℕ) : AgentM ℤ := do
  let uid ← sys .getuid
  match agentStart uid.toNat args with
  | .error 13 => do
    sendText 2 (lit ("Zorin ADB Core refuses uid=0 by default. Pass --allow-root only for deliberate " ++
      "local testing.\n"))
    return 13
  | .error code => do
    sendText 2 (lit ("Zorin ADB Core v3 requires --token <random-token> (>=16 chars), or explicit " ++
      "--insecure-localhost for debugging.\n"))
    return code
  | .ok g => do
    let s ← sys .socket
    if s < 0 then return 10
    else
      sys (.setReuse s)
      let bound ← sys (.bindPort s 0x0100007f (portArgs args 47471 % 2 ^ 16))
      if bound ≠ 0 then return 11
      else
        let listening ← sys (.listen s)
        if listening ≠ 0 then return 12
        else
          let uid ← sys .getuid
          let pid ← sys .getpid
          sys (.write 1 (banner g (portArgs args 47471) uid pid))
          serve g fuel s turns

end ZorinTrust.Bridge
