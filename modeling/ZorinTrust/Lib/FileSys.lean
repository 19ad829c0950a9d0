import ZorinTrust.Lib.CText

/-!
# One file by name, and the descriptors that outlive the name

A directory entry points to an inode, and so does a descriptor.  `create` is `open` with
`O_CREAT | O_TRUNC`, `append` a `write` through the descriptor that wrote all there is, `unlink` takes
the name away: what is written through a descriptor after that, no reader of the name will see.
-/

namespace FileSys

open CText

structure Disk where
  /-- The inode the name points to. -/
  entry : Option ℕ := none
  data : ℕ → Bytes := fun _ => []
  /-- The next inode. -/
  fresh : ℕ := 0

namespace Disk

/-- The inode `create` opens. -/
def target (d : Disk) : ℕ := d.entry.getD d.fresh

/-- `open(path, O_WRONLY | O_CREAT | O_TRUNC)`; the descriptor is on `target`. -/
def create (d : Disk) : Disk where
  entry := some d.target
  data := Function.update d.data d.target []
  fresh := if d.entry = none then d.fresh + 1 else d.fresh

/-- `write` through a descriptor. -/
def append (fd : ℕ) (b : Bytes) (d : Disk) : Disk :=
  { d with data := Function.update d.data fd (d.data fd ++ b) }

def unlink (d : Disk) : Disk := { d with entry := none }

/-- `open(path, O_RDONLY)`, `read` and `close`; `none` when there is no such file. -/
def read (d : Disk) : Option Bytes := d.entry.map d.data

variable {d : Disk} {fd : ℕ} {b : Bytes}

@[simp] theorem entry_create : d.create.entry = some d.target := rfl
@[simp] theorem entry_append : (d.append fd b).entry = d.entry := rfl
@[simp] theorem entry_unlink : d.unlink.entry = none := rfl

@[simp] theorem data_create : d.create.data d.target = [] := Function.update_self _ _ _

@[simp] theorem data_append : (d.append fd b).data fd = d.data fd ++ b := Function.update_self _ _ _

theorem read_eq_none : d.read = none ↔ d.entry = none := Option.map_eq_none_iff

theorem read_of_entry (h : d.entry = some fd) : d.read = some (d.data fd) := by
  rw [read, h, Option.map_some]

/-- A write through a descriptor on the name is seen by the next reader. -/
theorem read_append_self (h : d.entry = some fd) : (d.append fd b).read = some (d.data fd ++ b) := by
  have hentry : (d.append fd b).entry = some fd := h
  rw [read_of_entry hentry, data_append]

end Disk

end FileSys
