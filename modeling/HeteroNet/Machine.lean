import HeteroNet.Buffer
import HeteroNet.Error

/-
Memory and the device.

Memory is a list of cells, one for each tensor that was ever made. A cell lies on the host or on
the device. Until it is reserved it holds nothing; reserving a device cell is charged against
the device's budget, and the charge is returned when the last holder lets the cell go. The bytes
given away are counted in a word, and wrap around. A cell that is to have more words than a buffer
can have is charged before making its buffer breaks off, and that charge is never returned.

The device runs commands in the order in which they are submitted, and does not answer for them.
The first command that fails leaves its message with the device; every later command is skipped
until the next synchronize, which reports the message and clears it. A fault that was injected
fails the next command that would have run, without running it.
-/

namespace HeteroNet

inductive Place where
  | host
  | device
  deriving DecidableEq, Repr, Inhabited

/-- The place of a cell in memory. -/
abbrev CellId := Nat

structure Cell where
  place : Place
  words : Buffer := #[]
  reserved : Bool := false
  /-- A command broke off while it had the cell open for writing. -/
  damaged : Bool := false
  holders : Nat := 1
  deriving DecidableEq, Repr, Inhabited

namespace Cell

/-- What the cell takes of the device's memory. -/
def bytes (c : Cell) : Nat := 4 * c.words.size

/-- The cell takes device memory. -/
def isCharged (c : Cell) : Bool := c.place == .device && c.reserved && c.holders != 0

end Cell

abbrev Memory := List Cell

namespace Memory

def cell (m : Memory) (i : CellId) : Cell := m.getD i default

/-- What reading or writing a damaged cell reports. -/
def damageText : String := "poisoned lock: another task failed inside"

/-- The words of a cell, for a command. -/
def load (m : Memory) (i : CellId) : Except String Buffer :=
  if (m.cell i).damaged then .error damageText else .ok (m.cell i).words

def store (m : Memory) (i : CellId) (words : Buffer) : Memory :=
  m.modify i fun c => { c with words }

def damage (m : Memory) (i : CellId) : Memory := m.modify i fun c => { c with damaged := true }

end Memory

structure Device where
  /-- The budget in bytes, if there is one. -/
  limit : Option Nat := none
  allocated : UInt64 := 0
  /-- The message of the first failure since the last synchronize. -/
  failure : Option String := none
  /-- The fault that the next command to run meets. -/
  fault : Option String := none
  completed : Nat := 0
  skipped : Nat := 0
  deriving DecidableEq, Repr

structure Machine where
  memory : Memory := []
  device : Device := {}
  deriving DecidableEq, Repr

/-- A command of the device: its label, and what it does to memory unless it fails. -/
structure Command where
  label : String
  run : Memory → Memory × Except String Unit

/-- A call that may change the machine, and may fail; what it changed before it failed stays. -/
abbrev Task := ExceptT Failure (StateM Machine)

namespace Task

/-- The answer of a call and the machine it leaves. -/
def on {α : Type} (t : Task α) (m : Machine) : Except Failure α × Machine :=
  StateT.run (ExceptT.run t) m

end Task

namespace Machine

/-- The name under which the device itself reports failures. -/
def deviceName : BackendId := "gpu"

/-! ### Commands -/

/-- Runs a command, or skips it after an earlier failure. -/
def process (c : Command) (m : Machine) : Machine :=
  match m.device.failure, m.device.fault with
  | some _, _ => { m with device := { m.device with skipped := m.device.skipped + 1 } }
  | none, some reason =>
    { m with device := { m.device with fault := none, failure := some (c.label ++ ": " ++ reason) } }
  | none, none =>
    match c.run m.memory with
    | (memory, .ok ()) =>
      { m with memory, device := { m.device with completed := m.device.completed + 1 } }
    | (memory, .error reason) =>
      { m with memory, device := { m.device with failure := some (c.label ++ ": " ++ reason) } }

def submit (c : Command) : Task Unit := modify (process c)

/-- Reports and clears the first failure since the last call. -/
def synchronize : Task Unit := do
  let m ← get
  match m.device.failure with
  | none => return ()
  | some text =>
    set { m with device := { m.device with failure := none } }
    throw (.error (.execution (.backend deviceName text)))

def injectFault (text : String) (m : Machine) : Machine :=
  { m with device := { m.device with fault := some text } }

/-! ### Cells -/

/-- A new cell that holds nothing yet, with one holder. -/
def newCell (place : Place) : Task CellId := do
  let m ← get
  set { m with memory := m.memory ++ [{ place : Cell }] }
  return m.memory.length

/-- The bytes the device has left; without a limit, as many as a size can count. -/
def available (d : Device) : Nat := d.limit.getD 0xffffffffffffffff - d.allocated.toNat

/-- The bytes of so many words, as the device counts them. -/
def wordBytes (elements : Nat) : UInt64 := UInt64.ofNat (4 * elements)

/-- Charges `bytes` to the device, if its budget allows. -/
def charge (bytes : UInt64) (d : Device) : Except Error Device :=
  match d.limit with
  | some limit =>
    if limit < (d.allocated + bytes).toNat then
      .error (AllocationError.outOfMemory bytes.toNat (available d))
    else .ok { d with allocated := d.allocated + bytes }
  | none => .ok { d with allocated := d.allocated + bytes }

/-- Breaks off if no buffer can have so many words. The device `d` stays charged for them. -/
def requireCapacity (elements : Nat) (d : Device) : Task Unit := do
  if Buffer.capacity < elements then
    modify fun m => { m with device := d }
    throw .oversized

/-- Gives a cell `elements` zero words; the answer is their size in bytes. -/
def reserve (i : CellId) (elements : Nat) : Task Nat := do
  let m ← get
  let device ← match (m.memory.cell i).place with
    | .host => pure m.device
    | .device => charge (wordBytes elements) m.device
  requireCapacity elements device
  set { m with
    memory := m.memory.modify i fun c => { c with words := Buffer.zeros elements, reserved := true }
    device }
  return 4 * elements

/-- Another holder for a cell. -/
def retain (i : CellId) (m : Machine) : Machine :=
  { m with memory := m.memory.modify i fun c => { c with holders := c.holders + 1 } }

/-- One holder of a cell fewer. The last one returns its charge. -/
def release (i : CellId) (m : Machine) : Machine :=
  let c := m.memory.cell i
  let freed := if c.isCharged && c.holders == 1 then c.bytes else 0
  { m with
    memory := m.memory.modify i fun c => { c with holders := c.holders - 1 }
    device := { m.device with allocated := m.device.allocated - UInt64.ofNat freed } }

/-- A reserved device cell of its own, as a caller of the device allocates it. -/
def allocate (elements : Nat) : Task CellId := do
  let d ← charge (wordBytes elements) (← get).device
  requireCapacity elements d
  let i ← newCell .device
  modify fun m => { m with
    memory := m.memory.modify i fun c => { c with words := Buffer.zeros elements, reserved := true }
    device := d }
  return i

end Machine

end HeteroNet
