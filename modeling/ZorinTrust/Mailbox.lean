import ZorinTrust.RoundTrip
import ZorinTrust.Lib.FileSys
import ZorinTrust.Lib.Machine

/-!
# The command mailbox

`trust-ui-command` holds one command at a time.  `trust_ui_send_command` truncates the file and writes
it, in as many writes as it takes; `trust_ui_consume_command` reads the file, unlinks it and acts.
Nothing keeps the two apart, so the steps of the machine are the single file operations.  `Polite` is
the discipline under which no command is lost or cut, and `mailbox_delivers` proves that it is enough.
-/

namespace ZorinTrust

open CText Lines FileSys Machine

/-- A call of `trust_ui_send_command`. -/
structure Command where
  name : String
  binding : CStr 512
  name_mem : name ∈ uiCommands
  binding_eol : ∀ c ∈ binding.val, isEol c = false

/-- What the service finds in the frame of a command. -/
def Command.said (c : Command) : Option Bytes × Bytes := (some (lit c.name), c.binding.val)

/-- A call of `trust_ui_write_file` under way: its descriptor and the bytes still to write. -/
structure Writing where
  fd : ℕ
  command : Command
  rest : Bytes

structure Mailbox where
  disk : Disk := {}
  ui : Option Writing := none
  /-- What `trust_ui_consume_command` has read and not yet unlinked. -/
  held : Option Bytes := none
  s : Service := {}
  /-- The commands whose file was opened, in order. -/
  started : List Command := []

inductive MailOp
  /-- The Activity opens the file for this command. -/
  | send (c : Command)
  /-- One `write` takes this many bytes; the last one ends the call. -/
  | write (k : ℕ)
  /-- The service reads the file; without one, or with an empty one, its call is over. -/
  | read
  /-- The service unlinks the file and acts on what it read. -/
  | unlink

namespace Mailbox

def sendOp (c : Command) (m : Mailbox) : Mailbox :=
  { m with
    disk := m.disk.create
    ui := some ⟨m.disk.target, c, commandFrame c.name c.binding.val⟩
    started := m.started ++ [c] }

def writeOp (k : ℕ) (w : Writing) (m : Mailbox) : Mailbox :=
  { m with
    disk := m.disk.append w.fd (w.rest.take k)
    ui := if w.rest.drop k = [] then none else some { w with rest := w.rest.drop k } }

def readOp (m : Mailbox) : Mailbox := { m with held := m.disk.read.filter (· ≠ []) }

def unlinkOp (raw : Bytes) (m : Mailbox) : Mailbox :=
  { m with disk := m.disk.unlink, held := none, s := trustUiConsumeCommand (some raw) m.s }

/-- One file operation of either side; each side makes one call at a time. -/
def next (l : MailOp) (m : Mailbox) : Option Mailbox :=
  match l with
  | .send c => if m.ui.isNone then some (m.sendOp c) else none
  | .write k => m.ui.bind fun w => if 0 < k ∧ k ≤ w.rest.length then some (m.writeOp k w) else none
  | .read => if m.held.isNone then some m.readOp else none
  | .unlink => m.held.map fun raw => m.unlinkOp raw

/-- A fresh service, and no command file. -/
def init (g : Globals) (p : Prefs) : Mailbox := { s := { g := g, prefs := p } }

/-- The commands the service acted on, oldest first. -/
def acted (m : Mailbox) : List (Option Bytes × Bytes) :=
  m.s.log.reverse.filterMap fun
    | .consumed frame _ => some (frameCommand frame, frameBinding frame)
    | _ => none

/-- The commands the Activity finished writing. -/
def finished (m : Mailbox) : List Command := if m.ui.isSome then m.started.dropLast else m.started

/-- Steps of the service alone. -/
def ByService (_ : Mailbox) : MailOp → Prop
  | .read | .unlink => True
  | _ => False

/-- **Exactly once**: the service has acted on the commands in order, and when it goes on alone it has
acted on every command that was finished, and on none twice. -/
structure Delivered (m : Mailbox) : Prop where
  order : m.acted <+: m.started.map Command.said
  drains : ∃ m', Run next ByService m m' ∧ m.finished.map Command.said <+: m'.acted ∧
    m'.acted <+: m.started.map Command.said

/-- The Activity opens the file only when there is none, and the service does not read a file that is
being written unless the command and the binding are in it. -/
def Polite (m : Mailbox) : MailOp → Prop
  | .send _ => m.disk.entry = none
  | .read => ∀ w ∈ m.ui, ∀ raw ∈ m.disk.read, raw = [] ∨
      Carries (some raw) w.command.name w.command.binding.val
  | _ => True

/-! ### The invariant -/

/-- How far the last command is on its way. -/
inductive Phase (m : Mailbox) : Prop
  /-- Nothing is under way. -/
  | empty (hui : m.ui = none) (hheld : m.held = none) (hdisk : m.disk.entry = none)
      (hacted : m.acted = m.started.map Command.said)
  /-- A command is written and waits to be read. -/
  | full (c : Command) (raw : Bytes) (hui : m.ui = none) (hheld : m.held = none)
      (hdisk : m.disk.read = some raw) (hraw : Carries (some raw) c.name c.binding.val)
      (hacted : m.started.map Command.said = m.acted ++ [c.said])
  /-- It is read and waits for the service to act. -/
  | taken (c : Command) (raw : Bytes) (hui : m.ui = none) (hheld : m.held = some raw)
      (hdisk : m.disk.entry ≠ none) (hraw : Carries (some raw) c.name c.binding.val)
      (hacted : m.started.map Command.said = m.acted ++ [c.said])
  /-- A command is being written, and nobody has seen it. -/
  | writing (w : Writing) (hui : m.ui = some w) (hheld : m.held = none) (hdisk : m.disk.entry = some w.fd)
      (hdata : m.disk.data w.fd ++ w.rest = commandFrame w.command.name w.command.binding.val)
      (hrest : w.rest ≠ []) (hacted : m.started.map Command.said = m.acted ++ [w.command.said])
  /-- A command is being written, and the service has read the lines it needs. -/
  | caught (w : Writing) (raw : Bytes) (hui : m.ui = some w) (hheld : m.held = some raw)
      (hdisk : m.disk.entry ≠ none)
      (hraw : Carries (some raw) w.command.name w.command.binding.val)
      (hacted : m.started.map Command.said = m.acted ++ [w.command.said])
  /-- The service has acted on a command that is still being written, to a file without a name. -/
  | orphan (w : Writing) (hui : m.ui = some w) (hheld : m.held = none) (hdisk : m.disk.entry = none)
      (hacted : m.acted = m.started.map Command.said)

/-- The command a full frame carries is the one it was made from. -/
theorem carries_command (c : Command) :
    Carries (some (commandFrame c.name c.binding.val)) c.name c.binding.val :=
  carries_commandFrame c.name_mem c.binding_eol

/-- A file that carries a command is not empty. -/
theorem ne_nil_of_carries {raw binding : Bytes} {name : String} (h : Carries (some raw) name binding) :
    raw ≠ [] := by
  rintro rfl
  obtain ⟨frame, hread, -⟩ := h
  cases hread

/-- Acting on a file that carries a command adds that command. -/
theorem acted_unlinkOp {m : Mailbox} {raw : Bytes} {c : Command}
    (h : Carries (some raw) c.name c.binding.val) : (m.unlinkOp raw).acted = m.acted ++ [c.said] := by
  obtain ⟨frame, hread, hcmd, hbinding⟩ := h
  have hlog : (m.unlinkOp raw).s.log = .consumed frame m.s.g :: m.s.log := by
    rw [unlinkOp, trustUiConsumeCommand, hread]
  rw [acted, hlog, List.reverse_cons, List.filterMap_append, acted, Command.said, ← hcmd, ← hbinding]
  rfl

variable {m m' : Mailbox}

theorem Phase.send {c : Command} (h : Phase m) (hui : m.ui = none) (hdisk : m.disk.entry = none) :
    Phase (m.sendOp c) := by
  have hopened (hheld : m.held = none) (hacted : m.acted = m.started.map Command.said) :
      Phase (m.sendOp c) := by
    refine .writing ⟨m.disk.target, c, _⟩ rfl hheld rfl ?_ ?_ ?_
    · show m.disk.create.data m.disk.target ++ _ = _
      rw [Disk.data_create, List.nil_append]
    · exact ne_nil_of_carries (carries_command c)
    · show (m.started ++ [c]).map Command.said = m.acted ++ _
      rw [List.map_append, hacted]
      rfl
  cases h with
  | empty _ hheld _ hacted => exact hopened hheld hacted
  | full c' raw _ _ hread => rw [Disk.read_eq_none.mpr hdisk] at hread; cases hread
  | taken c' raw _ _ hentry => exact absurd hdisk hentry
  | writing w hw => rw [hui] at hw; cases hw
  | caught w raw hw => rw [hui] at hw; cases hw
  | orphan w hw => rw [hui] at hw; cases hw

theorem Phase.write {k : ℕ} {w : Writing} (h : Phase m) (hui : m.ui = some w) :
    Phase (m.writeOp k w) := by
  cases h with
  | empty hno => rw [hui] at hno; cases hno
  | full c raw hno => rw [hui] at hno; cases hno
  | taken c raw hno => rw [hui] at hno; cases hno
  | writing w' hw hheld hdisk hdata hrest hacted =>
    obtain rfl := Option.some.inj (hui.symm.trans hw)
    have hread := Disk.read_append_self (b := w.rest.take k) hdisk
    by_cases hend : w.rest.drop k = []
    · -- the last write: the file holds the whole frame
      have hfull : m.disk.data w.fd ++ w.rest.take k =
          commandFrame w.command.name w.command.binding.val := by
        rw [← hdata, ← List.take_append_drop k w.rest, hend, List.append_nil, List.take_take, min_self]
      rw [hfull] at hread
      exact .full w.command _ (if_pos hend) hheld hread (carries_command _) hacted
    · refine .writing { w with rest := w.rest.drop k } (if_neg hend) hheld hdisk ?_ hend hacted
      show (m.disk.append w.fd (w.rest.take k)).data w.fd ++ w.rest.drop k = _
      rw [Disk.data_append, List.append_assoc, List.take_append_drop, hdata]
  | caught w' raw hw hheld hdisk hraw hacted =>
    obtain rfl := Option.some.inj (hui.symm.trans hw)
    by_cases hend : w.rest.drop k = []
    · exact .taken w.command raw (if_pos hend) hheld hdisk hraw hacted
    · exact .caught { w with rest := w.rest.drop k } raw (if_neg hend) hheld hdisk hraw hacted
  | orphan w' hw hheld hdisk hacted =>
    obtain rfl := Option.some.inj (hui.symm.trans hw)
    by_cases hend : w.rest.drop k = []
    · exact .empty (if_pos hend) hheld hdisk hacted
    · exact .orphan { w with rest := w.rest.drop k } (if_neg hend) hheld hdisk hacted

/-- A read that finds nothing ends the call. -/
theorem readOp_of_empty (hheld : m.held = none) (h : m.disk.read.filter (· ≠ []) = none) :
    m.readOp = m := by
  rw [readOp, h, ← hheld]

theorem Phase.read (h : Phase m) (hheld : m.held = none) (hpolite : Polite m .read) :
    Phase m.readOp := by
  cases h with
  | empty hui hno hdisk hacted =>
    rw [readOp_of_empty hheld (by rw [Disk.read_eq_none.mpr hdisk]; rfl)]
    exact .empty hui hno hdisk hacted
  | full c raw hui hno hread hraw hacted =>
    have hsome : m.disk.read.filter (· ≠ []) = some raw := by
      rw [hread, Option.filter_some, if_pos (by simpa using ne_nil_of_carries hraw)]
    refine .taken c raw hui hsome ?_ hraw hacted
    intro hnone
    have hentry : m.disk.entry = none := hnone
    rw [Disk.read_eq_none.mpr hentry] at hread
    cases hread
  | taken c raw _ hsome => rw [hheld] at hsome; cases hsome
  | writing w hui hno hdisk hdata hrest hacted =>
    have hread := Disk.read_of_entry hdisk
    rcases hpolite w hui _ hread with hnil | hcarries
    · rw [readOp_of_empty hheld (by rw [hread, hnil]; rfl)]
      exact .writing w hui hno hdisk hdata hrest hacted
    · have hsome : m.disk.read.filter (· ≠ []) = some (m.disk.data w.fd) := by
        rw [hread, Option.filter_some, if_pos (by simpa using ne_nil_of_carries hcarries)]
      exact .caught w _ hui hsome (by rw [show m.readOp.disk = m.disk from rfl, hdisk]; simp) hcarries
        hacted
  | caught w raw _ hsome => rw [hheld] at hsome; cases hsome
  | orphan w hui hno hdisk hacted =>
    rw [readOp_of_empty hheld (by rw [Disk.read_eq_none.mpr hdisk]; rfl)]
    exact .orphan w hui hno hdisk hacted

theorem Phase.unlink {raw : Bytes} (h : Phase m) (hheld : m.held = some raw) :
    Phase (m.unlinkOp raw) := by
  cases h with
  | empty _ hno => rw [hheld] at hno; cases hno
  | full c raw' _ hno => rw [hheld] at hno; cases hno
  | taken c raw' hui hsome _ hraw hacted =>
    obtain rfl := Option.some.inj (hheld.symm.trans hsome)
    exact .empty hui rfl rfl ((acted_unlinkOp hraw).trans hacted.symm)
  | writing w _ hno => rw [hheld] at hno; cases hno
  | caught w raw' hui hsome _ hraw hacted =>
    obtain rfl := Option.some.inj (hheld.symm.trans hsome)
    exact .orphan w hui rfl rfl ((acted_unlinkOp hraw).trans hacted.symm)
  | orphan w _ hno => rw [hheld] at hno; cases hno

/-- **One file operation keeps the invariant.** -/
theorem Phase.step {l : MailOp} (h : Phase m) (hpolite : Polite m l) (hnext : next l m = some m') :
    Phase m' := by
  cases l with
  | send c =>
    rw [next, Option.ite_none_right_eq_some, Option.some.injEq, Option.isNone_iff_eq_none] at hnext
    obtain ⟨hui, rfl⟩ := hnext
    exact h.send hui hpolite
  | write k =>
    obtain ⟨w, hui, hnext⟩ := Option.bind_eq_some_iff.mp hnext
    rw [Option.ite_none_right_eq_some, Option.some.injEq] at hnext
    obtain ⟨-, rfl⟩ := hnext
    exact h.write hui
  | read =>
    rw [next, Option.ite_none_right_eq_some, Option.some.injEq, Option.isNone_iff_eq_none] at hnext
    obtain ⟨hheld, rfl⟩ := hnext
    exact h.read hheld hpolite
  | unlink =>
    obtain ⟨raw, hheld, rfl⟩ := Option.map_eq_some_iff.mp hnext
    exact h.unlink hheld

theorem phase_init (g : Globals) (p : Prefs) : Phase (init g p) := .empty rfl rfl rfl rfl

/-- The invariant holds in every polite run. -/
theorem phase_of_run {g : Globals} {p : Prefs} (h : Run next Polite (init g p) m) : Phase m :=
  Run.invariant (phase_init g p) (fun _ _ _ hphase hpolite hnext => hphase.step hpolite hnext) h

/-! ### Delivery -/

/-- While the last command is being written, the others are the finished ones. -/
theorem finished_of_writing {w : Writing} (h : m.ui = some w) : m.finished = m.started.dropLast := by
  rw [finished, h]
  rfl

theorem next_send {c : Command} (h : m.ui = none) : next (.send c) m = some (m.sendOp c) := by
  rw [next, h]
  rfl

theorem next_write {k : ℕ} {w : Writing} (h : m.ui = some w) (h0 : 0 < k) (hk : k ≤ w.rest.length) :
    next (.write k) m = some (m.writeOp k w) := by
  rw [next, h, Option.bind_some, if_pos ⟨h0, hk⟩]

theorem next_read (h : m.held = none) : next .read m = some m.readOp := by
  rw [next, h]
  rfl

theorem next_unlink {raw : Bytes} (h : m.held = some raw) :
    next .unlink m = some (m.unlinkOp raw) := by
  rw [next, h]
  rfl

/-- The service acts on what it holds. -/
theorem run_unlink {raw : Bytes} (h : m.held = some raw) : Run next ByService m (m.unlinkOp raw) := by
  have hservice : ByService m .unlink := trivial
  exact Run.step .refl hservice (next_unlink h)

/-- A waiting command is read, unlinked and acted on. -/
theorem run_read_unlink {raw : Bytes} (hheld : m.held = none) (hread : m.disk.read = some raw)
    (hraw : raw ≠ []) : Run next ByService m (m.readOp.unlinkOp raw) := by
  have hsome : m.readOp.held = some raw := by
    rw [readOp, hread, Option.filter_some, if_pos (by simpa using hraw)]
  have hservice : ByService m .read := trivial
  exact (Run.step .refl hservice (next_read hheld)).trans (run_unlink hsome)

/-- When the service has acted on as many commands as there are, they are the same. -/
theorem Delivered.of_acted (h : ∃ m', Run next ByService m m' ∧
    m'.acted = m.started.map Command.said) (horder : m.acted <+: m.started.map Command.said) :
    Delivered m := by
  obtain ⟨m', hrun, hacted⟩ := h
  refine ⟨horder, m', hrun, ?_, ?_⟩
  · rw [hacted, finished]
    split_ifs
    · exact (List.dropLast_prefix _).map _
    · exact List.prefix_rfl
  · rw [hacted]

/-- The unfinished command is the only one outstanding. -/
theorem Delivered.of_writing {w : Writing} {x : Option Bytes × Bytes} (hui : m.ui = some w)
    (hacted : m.started.map Command.said = m.acted ++ [x]) : Delivered m := by
  have horder : m.acted <+: m.started.map Command.said := by
    rw [hacted]
    exact List.prefix_append _ _
  refine ⟨horder, m, .refl, ?_, horder⟩
  rw [finished_of_writing hui, List.map_dropLast, hacted, List.dropLast_concat]

/-- **The invariant gives delivery.** -/
theorem Phase.delivered (h : Phase m) : Delivered m := by
  cases h with
  | empty hui hheld hdisk hacted => exact .of_acted ⟨m, .refl, hacted⟩ (by rw [hacted])
  | full c raw hui hheld hdisk hraw hacted =>
    refine .of_acted ⟨_, run_read_unlink hheld hdisk (ne_nil_of_carries hraw), ?_⟩ ?_
    · rw [acted_unlinkOp hraw, hacted]
      rfl
    · rw [hacted]
      exact List.prefix_append _ _
  | taken c raw hui hheld hdisk hraw hacted =>
    refine .of_acted ⟨_, run_unlink hheld, ?_⟩ ?_
    · rw [acted_unlinkOp hraw, hacted]
    · rw [hacted]
      exact List.prefix_append _ _
  | writing w hui hheld hdisk hdata hrest hacted => exact .of_writing hui hacted
  | caught w raw hui hheld hdisk hraw hacted => exact .of_writing hui hacted
  | orphan w hui hheld hdisk hacted => exact .of_acted ⟨m, .refl, hacted⟩ (by rw [hacted])

/-- **Exactly once in every polite run**: if each command is opened on an absent file, and no half
written file is read without its command and binding, the service acts on every finished command once
and in order. -/
theorem mailbox_delivers (g : Globals) (p : Prefs) (m : Mailbox)
    (h : Run next Polite (init g p) m) : Delivered m :=
  (phase_of_run h).delivered

/-- A polite FORGET: opened, written in two pieces, read, unlinked. -/
theorem mailbox_delivers_forget : ∃ m, Run next Polite (init {} {}) m ∧
    m.acted = [(some (lit "FORGET"), [])] ∧ Delivered m := by
  let c : Command := ⟨"FORGET", ⟨[], by decide, by decide⟩, by decide, by simp⟩
  let frame := commandFrame "FORGET" []
  let m₁ := (init {} {}).sendOp c
  let m₂ := m₁.writeOp 20 ⟨0, c, frame⟩
  let m₃ := m₂.writeOp 10 ⟨0, c, frame.drop 20⟩
  let m₄ := m₃.readOp
  have h₁ : Run next Polite (init {} {}) m₁ := .step (l := .send c) .refl rfl (next_send rfl)
  have h₂ : Run next Polite (init {} {}) m₂ :=
    .step (l := .write 20) h₁ trivial (next_write rfl (by decide) (by decide))
  have h₃ : Run next Polite (init {} {}) m₃ :=
    .step (l := .write 10) h₂ trivial (next_write rfl (by decide) (by decide))
  have hidle : m₃.ui = none := by decide
  have hpolite : Polite m₃ .read := by
    intro w hw
    rw [hidle] at hw
    cases hw
  have h₄ : Run next Polite (init {} {}) m₄ := .step (l := .read) h₃ hpolite (next_read rfl)
  have hheld : m₄.held = some frame := by decide
  have h₅ : Run next Polite (init {} {}) (m₄.unlinkOp frame) :=
    .step (l := .unlink) h₄ trivial (next_unlink hheld)
  exact ⟨_, h₅, acted_unlinkOp (carries_command c), mailbox_delivers _ _ _ h₅⟩

/-- Two commands in a row: the second truncates the file of the first before it is read. -/
theorem mailbox_loses_forget : ¬ ∀ (g : Globals) (p : Prefs) (m : Mailbox),
    Reach next (init g p) m → Delivered m := by
  intro h
  let c : Command := ⟨"FORGET", ⟨[], by decide, by decide⟩, by decide, by simp⟩
  let c' : Command := ⟨"RECONNECT", ⟨[], by decide, by decide⟩, by decide, by simp⟩
  let frame := commandFrame "RECONNECT" []
  let m₁ := (init {} {}).sendOp c
  let m₂ := m₁.writeOp 30 ⟨0, c, commandFrame "FORGET" []⟩
  let m₃ := m₂.sendOp c'
  let m₄ := m₃.writeOp 33 ⟨0, c', frame⟩
  let m₅ := m₄.readOp
  have h₁ : Reach next (init {} {}) m₁ := .step (l := .send c) .refl trivial (next_send rfl)
  have h₂ : Reach next (init {} {}) m₂ :=
    .step (l := .write 30) h₁ trivial (next_write rfl (by decide) (by decide))
  have h₃ : Reach next (init {} {}) m₃ :=
    .step (l := .send c') h₂ trivial (next_send (by decide))
  have h₄ : Reach next (init {} {}) m₄ :=
    .step (l := .write 33) h₃ trivial (next_write rfl (by decide) (by decide))
  have h₅ : Reach next (init {} {}) m₅ := .step (l := .read) h₄ trivial (next_read rfl)
  have hheld : m₅.held = some frame := by decide
  have h₆ : Reach next (init {} {}) (m₅.unlinkOp frame) :=
    .step (l := .unlink) h₅ trivial (next_unlink hheld)
  have hacted : (m₅.unlinkOp frame).acted = [c'.said] := acted_unlinkOp (carries_command c')
  have horder := (h _ _ _ h₆).order
  rw [hacted] at horder
  have hfirst : [c'.said] <+: [c.said, c'.said] := horder
  exact absurd hfirst (by decide)

end Mailbox

end ZorinTrust
