import HeteroNet.Proofs.Call
import HeteroNet.Proofs.Machine.Memory
import HeteroNet.Proofs.Storage.Stored

/-
A run under way. Either no command has failed: then every command submitted so far has completed,
and memory holds what the commands and the host put there. Or an injected fault has struck: then
its message stays with the device, no further command runs, and what memory holds is not known but
for its form. The next synchronize tells the two apart; it reports the fault and clears it.

Everything is said relative to the machine `m₀` on which the run began.
-/

namespace HeteroNet

/-- What the device reports when the fault that was pending strikes one of its commands. -/
def Injected (m₀ : Machine) (text : String) : Prop :=
  ∃ label reason, m₀.device.fault = some reason ∧ text = label ++ ": " ++ reason

/-- No command has failed: `n` commands have completed, and memory holds `E`. -/
structure Healthy (m₀ : Machine) (E : CellId → Buffer) (n : Nat) (m : Machine) : Prop where
  failure : m.device.failure = none
  fault : m.device.fault = m₀.device.fault
  completed : m.device.completed = m₀.device.completed + n
  skipped : m.device.skipped = m₀.device.skipped
  allocated : m.device.allocated = m₀.device.allocated
  /-- A pending fault strikes the first command. -/
  idle : m₀.device.fault = none ∨ n = 0
  contents : m.memory.contents = E

/-- The fault has struck a command. -/
structure Struck (m₀ m : Machine) : Prop where
  failure : ∃ text, m.device.failure = some text ∧ Injected m₀ text
  fault : m.device.fault = none
  allocated : m.device.allocated = m₀.device.allocated

/-- A run that writes the cells `W` only, and submits commands only if `D`. -/
structure Going (W : CellId → Prop) (D : Prop) (m₀ : Machine) (E : CellId → Buffer) (n : Nat)
    (m : Machine) : Prop where
  memory : Memory.Rewritten W m₀.memory m.memory
  state : Healthy m₀ E n m ∨ (D ∧ Struck m₀ m)

/-- A run that ended with the report of the fault. -/
structure Stopped (W : CellId → Prop) (m₀ : Machine) (e : Failure) (m : Machine) : Prop where
  memory : Memory.Rewritten W m₀.memory m.memory
  failure : m.device.failure = none
  fault : m.device.fault = none
  allocated : m.device.allocated = m₀.device.allocated
  reported : ∃ text, Injected m₀ text ∧
    e = .error (.execution (.backend Machine.deviceName text))

variable {W : CellId → Prop} {D : Prop} {m₀ m : Machine} {E E' : CellId → Buffer} {n : Nat}

theorem Going.start (h : m₀.device.failure = none) : Going W D m₀ m₀.memory.contents 0 m₀ :=
  ⟨.refl, .inl ⟨h, rfl, rfl, rfl, rfl, .inr rfl, rfl⟩⟩

/-! ## Commands -/

/-- Once the fault has struck, commands change nothing. -/
theorem Struck.process (h : Struck m₀ m) (c : Command) : Struck m₀ (Machine.process c m) := by
  obtain ⟨text, hf, hi⟩ := h.failure
  have hp : Machine.process c m
      = { m with device := { m.device with skipped := m.device.skipped + 1 } } := by
    simp only [Machine.process, hf]
  rw [hp]
  exact ⟨⟨text, hf, hi⟩, h.fault, h.allocated⟩

/-- A command that succeeds on memory as it is. -/
theorem Going.submit (h : Going W D m₀ E n m) (hD : D) {c : Command}
    (hrun : ∀ mem, Memory.Rewritten W m₀.memory mem → mem.contents = E →
      ∃ mem', c.run mem = (mem', .ok ()) ∧ Memory.Rewritten W mem mem' ∧ mem'.contents = E') :
    Going W D m₀ E' (n + 1) (Machine.process c m) := by
  obtain ⟨hmem, hstate⟩ := h
  rcases hstate with hh | ⟨-, hs⟩
  · cases hf : m.device.fault with
    | some reason =>
      have hp : Machine.process c m = { m with device :=
          { m.device with fault := none, failure := some (c.label ++ ": " ++ reason) } } := by
        simp only [Machine.process, hh.failure, hf]
      rw [hp]
      exact ⟨hmem, .inr ⟨hD, ⟨_, rfl, c.label, reason, by rw [← hh.fault, hf], rfl⟩, rfl,
        hh.allocated⟩⟩
    | none =>
      obtain ⟨mem', hc, hmem', hE'⟩ := hrun m.memory hmem hh.contents
      have hp : Machine.process c m = { m with memory := mem', device :=
          { m.device with completed := m.device.completed + 1 } } := by
        simp only [Machine.process, hh.failure, hf, hc]
      rw [hp]
      refine ⟨hmem.trans hmem', .inl ⟨hh.failure, hh.fault, ?_, hh.skipped, hh.allocated, ?_, hE'⟩⟩
      · change m.device.completed + 1 = _
        rw [hh.completed, Nat.add_assoc]
      · exact .inl (by rw [← hh.fault, hf])
  · refine ⟨?_, .inr ⟨hD, hs.process c⟩⟩
    obtain ⟨text, hf, -⟩ := hs.failure
    have hp : (Machine.process c m).memory = m.memory := by
      simp only [Machine.process, hf]
    rwa [hp]

/-- A step of the host, which touches memory only. -/
theorem Going.host (h : Going W D m₀ E n m) {mem : Memory}
    (hmem : Memory.Rewritten W m.memory mem) (hE : m.memory.contents = E → mem.contents = E') :
    Going W D m₀ E' n { m with memory := mem } := by
  refine ⟨h.memory.trans hmem, ?_⟩
  rcases h.state with hh | ⟨hD, hs⟩
  · exact .inl ⟨hh.failure, hh.fault, hh.completed, hh.skipped, hh.allocated, hh.idle,
      hE hh.contents⟩
  · exact .inr ⟨hD, hs.failure, hs.fault, hs.allocated⟩

/-- Waiting for the device goes on only if nothing failed, and nothing can have failed on a run that
submits no command. -/
theorem Going.synchronize (h : Going W D m₀ E n m) :
    Ends (outcome Machine.synchronize m) (fun _ m' => m' = m ∧ Healthy m₀ E n m)
      (fun e m' => D ∧ Stopped W m₀ e m') := by
  rw [Machine.synchronize, outcome_bind_of_ok (outcome_get m)]
  rcases h.state with hh | ⟨hD, hs⟩
  · rw [hh.failure]
    exact ⟨rfl, hh⟩
  · obtain ⟨text, hf, hi⟩ := hs.failure
    rw [hf]
    exact ⟨hD, h.memory, rfl, hs.fault, hs.allocated, text, hi, rfl⟩

/-! ## Tensors -/

namespace Tensor

/-- The tensor has its memory. -/
structure Ready (t : Tensor) (mem : Memory) : Prop where
  bound : t.cell < mem.length
  reserved : (mem.cell t.cell).reserved = true
  whole : (mem.cell t.cell).damaged = false
  size : (mem.contents t.cell).size = t.info.elements

variable {t : Tensor} {mem mem' : Memory}

theorem Ready.rewritten (h : t.Ready mem) (hm : Memory.Rewritten W mem mem') : t.Ready mem' where
  bound := hm.length ▸ h.bound
  reserved := (hm.reserved _).trans h.reserved
  whole := (hm.damaged _).trans h.whole
  size := (hm.size _).trans h.size

/-- The number of commands that writing the tensor takes. -/
def commands (t : Tensor) : Nat := if t.place = .device then 1 else 0

theorem requireReserved_ok (h : t.Ready m.memory) :
    outcome t.requireReserved m = (.ok (), m) := by
  simp [requireReserved, outcome_bind, h.reserved]

theorem Ready.load (h : t.Ready mem) : mem.load t.cell = .ok (mem.contents t.cell) :=
  Memory.load_eq_ok h.whole

theorem Ready.store (h : t.Ready mem) (hW : W t.cell) {words : Buffer}
    (hw : words.size = t.info.elements) : Memory.Rewritten W mem (mem.store t.cell words) :=
  .store hW h.bound (hw.trans h.size.symm)

theorem Ready.upload (h : t.Ready mem) (words : Buffer) :
    (uploadCommand t.cell words).run mem = (mem.store t.cell words, .ok ()) := by
  simp only [uploadCommand, h.load]

/-- Writing as many words as the tensor has, at once or by a command. -/
theorem write_ready (h : t.Ready m.memory) {words : Buffer} (hw : words.size = t.info.elements) :
    outcome (t.write words) m = (.ok (), match t.place with
      | .host => { m with memory := m.memory.store t.cell words }
      | .device => m.process (uploadCommand t.cell words)) := by
  have hsize : words.size = (m.memory.cell t.cell).words.size := hw.trans h.size.symm
  rw [write, outcome_bind_of_ok (requireReserved_ok h), outcome_bind_of_ok (outcome_get m),
    if_neg (not_not.2 hsize)]
  cases t.place <;> rfl

/-- Writing goes on, and is counted if it takes a command. -/
theorem write_going (hr : t.Ready m₀.memory) (hW : W t.cell) (hD : t.place = .device → D)
    {words : Buffer} (hw : words.size = t.info.elements) (h : Going W D m₀ E n m) :
    ∃ m', outcome (t.write words) m = (.ok (), m') ∧
      Going W D m₀ (Function.update E t.cell words) (n + t.commands) m' ∧
        (Struck m₀ m → Struck m₀ m') := by
  have hready := hr.rewritten h.memory
  refine ⟨_, write_ready hready hw, ?_⟩
  cases hp : t.place with
  | host =>
    have hn : n + t.commands = n := by simp [commands, hp]
    rw [hn]
    refine ⟨h.host (hready.store hW hw) fun hE => ?_, fun hs => ⟨hs.failure, hs.fault, hs.allocated⟩⟩
    rw [Memory.contents_store hready.bound, hE]
  | device =>
    have hn : n + t.commands = n + 1 := by simp [commands, hp]
    rw [hn]
    refine ⟨h.submit (hD hp) fun mem hmem hE => ?_, fun hs => hs.process _⟩
    have hready := hr.rewritten hmem
    refine ⟨mem.store t.cell words, hready.upload words, hready.store hW hw, ?_⟩
    rw [Memory.contents_store hready.bound, hE]

/-- Reading gives the words, unless the fault has struck. -/
theorem read_ends (hr : t.Ready m₀.memory) (h : Going W D m₀ E n m) :
    Ends (outcome t.read m) (fun words m' => m' = m ∧ words.size = t.info.elements ∧
      (Healthy m₀ E n m → words = E t.cell)) (fun e m' => D ∧ Stopped W m₀ e m') := by
  have hready := hr.rewritten h.memory
  rw [read, outcome_bind_of_ok (requireReserved_ok hready)]
  by_cases hp : t.place = .device
  · rw [if_pos hp]
    refine Ends.bind (h.synchronize.mono ?_ fun _ _ he => he)
    rintro _ _ ⟨rfl, -⟩
    rw [outcome_bind_of_ok (outcome_get _), hready.load]
    exact ⟨rfl, hready.size, fun hh => congrFun hh.contents _⟩
  · rw [if_neg hp]
    beta_reduce
    rw [outcome_bind_of_ok (outcome_get _), hready.load]
    exact ⟨rfl, hready.size, fun hh => congrFun hh.contents _⟩

/-! ## In logical order -/

theorem reorder_ok {source target : Layout} {x y : Buffer}
    (h : Layout.convert source target t.info.shape x = some y) :
    outcome (t.reorder source target x) m = (.ok y, m) := by
  rw [reorder, h]
  rfl

/-- Writing logical words puts them in the order of the tensor. -/
theorem writeLogical_going (hr : t.Ready m₀.memory) (hW : W t.cell) (hD : t.place = .device → D)
    {x y : Buffer} (hxy : Layout.Stores t.layout t.info.shape x y) (h : Going W D m₀ E n m) :
    ∃ m', outcome (t.writeLogical x) m = (.ok (), m') ∧
      Going W D m₀ (Function.update E t.cell y) (n + t.commands) m' ∧
        (Struck m₀ m → Struck m₀ m') := by
  rw [writeLogical, outcome_bind_of_ok (reorder_ok hxy.converted)]
  exact write_going hr hW hD hxy.size h

/-- Writing fewer words than a feature map has elements to the device reaches outside of them, before
any command is submitted. -/
theorem writeLogical_short {f : Feature} {x : Buffer} (hplace : t.place = .device)
    (hshape : t.info.shape = f.dims) (hx : x.size < f.elements) (m : Machine) :
    outcome (t.writeLogical x) m = (.error .outOfBounds, m) := by
  have hnone : Layout.convert .nhwc t.layout t.info.shape x = none := by
    rw [hshape, layout, hplace]
    exact Layout.convert_short (by decide) hx
  rw [writeLogical, reorder, hnone]
  rfl

/-- Reading logical words gives those that the cell stores. -/
theorem readLogical_ends (hr : t.Ready m₀.memory) (h : Going W D m₀ E n m) :
    Ends (outcome t.readLogical m) (fun x m' => m' = m ∧ x.size = t.info.elements ∧
      (Healthy m₀ E n m → Layout.Stores t.layout t.info.shape x (E t.cell)))
      (fun e m' => D ∧ Stopped W m₀ e m') := by
  refine Ends.bind ((read_ends hr h).mono (fun words m' hw => ?_) fun _ _ he => he)
  obtain ⟨rfl, hsize, hE⟩ := hw
  obtain ⟨x, hx⟩ := Layout.exists_stored (l := t.layout) hsize
  rw [reorder_ok hx.back]
  exact ⟨rfl, hx.words, fun hh => hE hh ▸ hx⟩

end Tensor

end HeteroNet
