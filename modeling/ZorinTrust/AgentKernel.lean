import ZorinTrust.Lib.Calls
import ZorinTrust.PrivilegeDiff
import ZorinTrust.Bridge

/-!
# The system calls of the shell agent

`agent.c` sees the device through system calls, properties and Binder pings.  `Sys` are its calls and
`kernel` keeps over a run what the process holds: open descriptors, Binder references, children that
nobody has waited for and those that `waitpid` failed for, whether this process is the child of a `fork`,
and what was written to which descriptor.  What
`kernel` allows is the agent's promise: a fixed list of diagnostics that only reads.
-/

namespace ZorinTrust.Bridge

open CText Numeral Calls

/-- The access mode of an `open`. -/
inductive Access
  | rdonly
  | rdwr
  deriving DecidableEq

/-- `struct probe_result`. -/
structure ProbeResult where
  rc : ℤ
  err : ℤ

/-- The members of `struct utsname` the agent prints. -/
structure Utsname where
  sysname : Bytes
  release : Bytes
  machine : Bytes

/-- The calls of `agent.c`. -/
inductive Sys
  /-- `last_errno`. -/
  | errno
  | getuid
  | getgid
  | getpid
  /-- `syscall(GETTID_NR)`. -/
  | gettid
  | getpagesize
  | uname
  | openFile (path : String) (mode : Access)
  | read (fd : ℤ) (count : ℕ)
  | write (fd : ℤ) (text : Bytes)
  | close (fd : ℤ)
  /-- `access(path, F_OK) == 0`. -/
  | access (path : String)
  | readlink (path : String) (size : ℕ)
  | property (key : String)
  | checkService (name : String)
  | ping
  | decStrong
  | pipe2
  | fork
  | waitpid (pid : ℤ)
  /-- The system call a probe tries, by the kind of the probe. -/
  | probe (kind : ℕ)
  | setns (fd : ℤ)
  /-- The child writes its result into the pipe. -/
  | writeResult (fd : ℤ) (r : ProbeResult)
  /-- The parent reads it; `none` when it is not whole. -/
  | readResult (fd : ℤ)
  /-- `_exit(0)`. -/
  | exit
  | socket
  | setReuse (s : ℤ)
  /-- `bind` to an IPv4 address, as `s_addr` has it, and a port. -/
  | bindPort (s : ℤ) (sAddr port : ℕ)
  | listen (s : ℤ)
  | accept (s : ℤ)
  /-- What a local buffer holds before it is written. -/
  | garbage (size : ℕ)
  /-- A store outside its buffer. -/
  | fault

/-- What a call returns. -/
@[reducible] def Sys.Answer : Sys → Type
  | errno | getuid | getgid | getpid | gettid | getpagesize => ℤ
  | uname => Option Utsname
  | openFile _ _ => ℤ
  | read _ _ | readlink _ _ | property _ => Option Bytes
  | write _ _ | close _ | decStrong | writeResult _ _ | setReuse _ | fault => Unit
  | access _ | checkService _ => Bool
  | ping | fork | probe _ | setns _ | socket | bindPort _ _ _ | listen _ | accept _ => ℤ
  | pipe2 => Option (ℤ × ℤ)
  | waitpid _ => Option ℕ
  | readResult _ => Option ProbeResult
  | exit => Empty
  | garbage _ => Bytes

/-- A program of the agent. -/
abbrev AgentM := Prog Sys Sys.Answer

/-- One call. -/
def sys (c : Sys) : AgentM c.Answer := Prog.perform c

/-- The value of a store within bounds. -/
def orFault {α : Type} : Option α → AgentM α
  | some a => pure a
  | none => do
    sys .fault
    .cut

/-! ### What the process holds -/

/-- What a descriptor refers to. -/
inductive Kind
  | stdio
  | file
  | socket
  | pipe
  /-- What a probe has created. -/
  | probed
  deriving DecidableEq

/-- The state of the process a run goes through. -/
structure Proc where
  fds : ℤ → Option Kind
  refs : ℕ
  /-- Forked and not waited for. -/
  children : List ℤ
  /-- Waited for, but `waitpid` failed. -/
  lost : List ℤ
  inChild : Bool
  /-- What the client being served has asked. -/
  request : Option Bytes
  /-- The texts written, with their descriptors. -/
  sent : List (ℤ × Bytes)

namespace Proc

def opened (s : Proc) (fd : ℤ) (k : Kind) : Proc := { s with fds := Function.update s.fds fd (some k) }

def closed (s : Proc) (fd : ℤ) : Proc := { s with fds := Function.update s.fds fd none }

@[simp] theorem opened_fds (s : Proc) (fd : ℤ) (k : Kind) :
    (s.opened fd k).fds = Function.update s.fds fd (some k) := rfl

@[simp] theorem closed_fds (s : Proc) (fd : ℤ) : (s.closed fd).fds = Function.update s.fds fd none := rfl

@[simp] theorem opened_refs (s : Proc) (fd : ℤ) (k : Kind) : (s.opened fd k).refs = s.refs := rfl

@[simp] theorem closed_refs (s : Proc) (fd : ℤ) : (s.closed fd).refs = s.refs := rfl

@[simp] theorem opened_children (s : Proc) (fd : ℤ) (k : Kind) :
    (s.opened fd k).children = s.children := rfl

@[simp] theorem closed_children (s : Proc) (fd : ℤ) : (s.closed fd).children = s.children := rfl

@[simp] theorem opened_inChild (s : Proc) (fd : ℤ) (k : Kind) : (s.opened fd k).inChild = s.inChild := rfl

@[simp] theorem closed_inChild (s : Proc) (fd : ℤ) : (s.closed fd).inChild = s.inChild := rfl

/-- A text is written. -/
def wrote (s : Proc) (fd : ℤ) (text : Bytes) : Proc := { s with sent := s.sent ++ [(fd, text)] }

@[simp] theorem wrote_fds (s : Proc) (fd : ℤ) (text : Bytes) : (s.wrote fd text).fds = s.fds := rfl

/-- A descriptor that was free is free again after it is closed. -/
theorem closed_opened {s : Proc} {fd : ℤ} {k : Kind} (h : s.fds fd = none) :
    (s.opened fd k).closed fd = s := by
  cases s
  simp only [opened, closed, Function.update_idem, Proc.mk.injEq, and_true]
  exact Function.update_eq_self_iff.mpr h.symm

/-- A child was created. -/
def forked (s : Proc) (pid : ℤ) : Proc := { s with children := pid :: s.children }

/-- Some children could not be waited for. -/
def left (s : Proc) (pids : List ℤ) : Proc := { s with lost := pids ++ s.lost }

/-- The process as it was, but for children that could not be waited for. -/
def Left (s s' : Proc) : Prop := ∃ pids, s' = s.left pids

theorem Left.refl (s : Proc) : s.Left s := ⟨[], rfl⟩

theorem Left.trans {s t u : Proc} (h : s.Left t) (h' : t.Left u) : s.Left u := by
  obtain ⟨pids, rfl⟩ := h
  obtain ⟨pids', rfl⟩ := h'
  exact ⟨pids' ++ pids, congrArg (fun lost => { s with lost := lost }) (List.append_assoc ..).symm⟩

/-- The client has asked. -/
def asked (s : Proc) (req : Option Bytes) : Proc := { s with request := req }

/-- What the client asked lets it look at the device. -/
def Admitted (admits : Bytes → Prop) (s : Proc) : Prop := ∃ req ∈ s.request, admits req

section

variable {admits : Bytes → Prop} {s : Proc} [h : Fact (s.Admitted admits)] (fd : ℤ) (k : Kind)

instance : Fact ((s.opened fd k).Admitted admits) := h

instance : Fact ((s.closed fd).Admitted admits) := h

instance : Fact ((s.forked fd).Admitted admits) := h

instance (pids : List ℤ) : Fact ((s.left pids).Admitted admits) := h

end

/-- The child after a `fork`. -/
def child (s : Proc) : Proc := { s with inChild := true }

instance {admits : Bytes → Prop} {s : Proc} [h : Fact (s.Admitted admits)] :
    Fact (s.child.Admitted admits) := h

/-- The process holds its standard streams and the listening socket, nothing else. -/
structure Idle (listener : ℤ) (s : Proc) : Prop where
  fds : ∀ fd, s.fds fd =
    if fd = listener then some .socket else if 0 ≤ fd ∧ fd ≤ 2 then some .stdio else none
  refs : s.refs = 0
  children : s.children = []
  inChild : s.inChild = false

end Proc

/-! ### The fixed diagnostics -/

/-- The files the agent opens. -/
def agentFiles : List (String × Access) :=
  [("/proc/self/status", .rdonly), ("/proc/self/attr/current", .rdonly),
    ("/dev/vndbinder", .rdwr), ("/sys/fs/selinux/enforce", .rdonly), ("/proc/version", .rdonly),
    ("/proc/uptime", .rdonly), ("/proc/loadavg", .rdonly), ("/proc/sys/kernel/osrelease", .rdonly),
    ("/proc/sys/kernel/hostname", .rdonly), ("/proc/net/dev", .rdonly), ("/proc/net/route", .rdonly),
    ("/proc/net/tcp", .rdonly), ("/proc/net/tcp6", .rdonly), ("/proc/net/udp", .rdonly),
    ("/proc/net/udp6", .rdonly), ("/proc/sys/kernel/kptr_restrict", .rdonly),
    ("/proc/sys/kernel/dmesg_restrict", .rdonly), ("/proc/sys/kernel/perf_event_paranoid", .rdonly),
    ("/proc/sys/kernel/unprivileged_bpf_disabled", .rdonly),
    ("/proc/sys/vm/unprivileged_userfaultfd", .rdonly), ("/proc/sys/kernel/yama/ptrace_scope", .rdonly),
    ("/proc/self/mountinfo", .rdonly), ("/proc/self/cgroup", .rdonly), ("/proc/filesystems", .rdonly),
    ("/proc/1/status", .rdonly), ("/proc/1/cmdline", .rdonly), ("/proc/modules", .rdonly),
    ("/proc/interrupts", .rdonly), ("/proc/cpuinfo", .rdonly), ("/proc/meminfo", .rdonly),
    ("/proc/vmstat", .rdonly), ("/proc/pressure/cpu", .rdonly), ("/proc/self/ns/net", .rdonly)]

/-- The links it reads. -/
def agentLinks : List String :=
  ["/proc/self/ns/mnt", "/proc/self/ns/pid", "/proc/self/ns/net", "/proc/self/ns/user", "/proc/1/ns/mnt",
    "/proc/1/ns/pid", "/proc/1/ns/net"]

/-- The files it asks for with `access`. -/
def agentChecks : List String := ["/dev/binder", "/dev/hwbinder", "/dev/vndbinder", "/proc/net/tcp"]

/-- The properties it reads. -/
def agentProperties : List String :=
  ["ro.boot.verifiedbootstate", "ro.boot.vbmeta.device_state", "ro.boot.flash.locked", "ro.debuggable",
    "ro.secure"]

/-- The `s_addr` of 127.0.0.1: four bytes in network order, read by a little-endian processor. -/
def loopback : ℕ := 127 + 0 * 2 ^ 8 + 0 * 2 ^ 16 + 1 * 2 ^ 24

/-- A value of C's `long`. -/
def IsLong (x : ℤ) : Prop := -2 ^ 63 ≤ x ∧ x < 2 ^ 63

/-- **What a run keeps to.**  The device is looked at for an admitted request only, a file is read only
while it is open, what is written goes to a socket, a standard stream or the pipe of a probe, the probed
system calls are made in a child only, and a connection is accepted only by the process that holds nothing
but its listening socket. -/
def kernel (admits : Bytes → Prop) : Monitor Sys Sys.Answer Proc where
  allowed s
    | .errno | .getuid | .getpid | .garbage _ => True
    | .getgid | .gettid | .getpagesize | .uname => s.Admitted admits
    | .openFile path mode => s.Admitted admits ∧ (path, mode) ∈ agentFiles
    | .read fd _ => s.fds fd = some .file ∨ s.fds fd = some .socket
    | .write fd _ => s.inChild = false ∧ (s.fds fd = some .socket ∨ s.fds fd = some .stdio)
    | .close fd => ∃ k, s.fds fd = some k ∧ k ≠ .stdio
    | .access path => s.Admitted admits ∧ path ∈ agentChecks
    | .readlink path _ => s.Admitted admits ∧ path ∈ agentLinks
    | .property key => s.Admitted admits ∧ key ∈ agentProperties
    | .checkService name => s.Admitted admits ∧ name ∈ agentNames
    | .ping | .decStrong => 0 < s.refs
    | .pipe2 | .fork => s.Admitted admits ∧ s.inChild = false
    | .socket => s.inChild = false
    | .waitpid pid => pid ∈ s.children
    | .probe kind => s.inChild = true ∧ 1 ≤ kind ∧ kind ≤ 8
    | .setns fd => s.inChild = true ∧ s.fds fd = some .file
    | .writeResult fd _ => s.inChild = true ∧ s.fds fd = some .pipe
    | .readResult fd => s.inChild = false ∧ s.fds fd = some .pipe
    | .exit => s.inChild = true
    | .setReuse fd | .listen fd => s.inChild = false ∧ s.fds fd = some .socket
    | .bindPort fd sAddr port => s.inChild = false ∧ s.fds fd = some .socket ∧ sAddr = loopback ∧
        1 ≤ port ∧ port < 2 ^ 16
    | .accept fd => s.Idle fd
    | .fault => False
  answers s
    | .errno, e => -2 ^ 31 < e ∧ e < 2 ^ 31
    | .getuid, x | .getgid, x | .getpid, x | .gettid, x | .getpagesize, x => IsLong x
    | .uname, u => ∀ n ∈ u, (∀ b ∈ [n.sysname, n.release, n.machine], b.length < 65 ∧ 0 ∉ b)
    | .openFile _ _, fd | .socket, fd | .accept _, fd => 0 ≤ fd → s.fds fd = none
    | .read _ count, b | .readlink _ count, b => ∀ t ∈ b, t.length ≤ count
    | .property _, b => ∀ t ∈ b, t ≠ [] ∧ t.length < 92 ∧ 0 ∉ t
    | .pipe2, p => ∀ ab ∈ p, ab.1 ≠ ab.2 ∧ s.fds ab.1 = none ∧ s.fds ab.2 = none
    | .fork, pid => 0 < pid → pid ∉ s.children
    | .waitpid _, st => ∀ n ∈ st, n < 2 ^ 32
    | .probe _, fd => IsLong fd ∧ (0 ≤ fd → s.fds fd = none)
    | .readResult _, r => ∀ p ∈ r, IsLong p.rc ∧ IsLong p.err
    | .garbage size, b => b.length = size
    | _, _ => True
  next s
    | .openFile _ _, fd => if 0 ≤ fd then s.opened fd .file else s
    | .socket, fd => if 0 ≤ fd then s.opened fd .socket else s
    | .accept _, fd => if 0 ≤ fd then (s.asked none).opened fd .socket else s.asked none
    | .read fd _, b => if s.fds fd = some .socket then s.asked b else s
    | .write fd text, _ => s.wrote fd text
    | .close fd, _ => s.closed fd
    | .checkService _, found => if found then { s with refs := s.refs + 1 } else s
    | .decStrong, _ => { s with refs := s.refs - 1 }
    | .pipe2, some ab => (s.opened ab.1 .pipe).opened ab.2 .pipe
    | .fork, pid =>
      if pid = 0 then s.child
      else if 0 < pid then s.forked pid else s
    | .waitpid pid, some _ => { s with children := s.children.erase pid }
    | .waitpid pid, none => { s with children := s.children.erase pid, lost := pid :: s.lost }
    | .probe kind, fd => if kind ≤ 6 ∧ 0 ≤ fd then s.opened fd .probed else s
    | _, _ => s

end ZorinTrust.Bridge
