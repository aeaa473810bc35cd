import HeteroNet.Compile
import HeteroNet.Proofs.Machine.Charges
import HeteroNet.Proofs.Machine.Memory
import HeteroNet.Proofs.Machine.Steps
import HeteroNet.Proofs.Session.Calls

/-
What has memory keeps it. A command stores words or leaves a cell damaged, and letting go of a cell
changes who holds it; nothing takes from a cell the memory that it was given. So a plan that was made
has the memory of its tensors on every later machine, whatever was compiled, run or dropped in between
(`Later.lasting`).

One lemma for each call, from commands up to compilations and runs.
-/

namespace HeteroNet

/-- Every cell that has memory still has it. -/
def Machine.Lasting (m m' : Machine) : Prop :=
  ∀ i, (m.memory.cell i).reserved = true → (m'.memory.cell i).reserved = true

instance : IsPreorder Machine Machine.Lasting where
  refl _ _ := id
  trans _ _ _ h h' i := h' i ∘ h i

open Machine (Lasting)

variable {m m' m'' : Machine} {α : Type}

theorem Machine.Lasting.trans (h : Lasting m m') (h' : Lasting m' m'') : Lasting m m'' :=
  trans_of Lasting h h'

/-- Changing a cell lasts if the change leaves it its memory. -/
theorem lasting_modify (i : CellId) {f : Cell → Cell}
    (hf : ∀ c, c.reserved = true → (f c).reserved = true) (d : Device) :
    Lasting m ⟨m.memory.modify i f, d⟩ := fun _ => Memory.cell_modify_holds hf

/-- Changing the device lasts. -/
theorem lasting_device (d : Device) : Lasting m { m with device := d } := fun _ => id

/-! ## Commands -/

/-- On any memory, the command takes no memory from a cell. -/
def Command.Keeping (c : Command) : Prop :=
  ∀ mem i, (Memory.cell mem i).reserved = true → (Memory.cell (c.run mem).1 i).reserved = true

theorem uploadCommand_keeping (i : CellId) (words : Buffer) :
    (Tensor.uploadCommand i words).Keeping := by
  intro mem j hj
  simp only [Tensor.uploadCommand]
  split
  · exact Memory.cell_modify_holds (P := fun c => c.reserved = true) (fun _ h => h) hj
  · exact hj

theorem kernelCommand_keeping (label : String) (k : Kernel) (ins : List CellId) (out : CellId) :
    (Runnable.kernelCommand label k ins out).Keeping := by
  intro mem j hj
  simp only [Runnable.kernelCommand]
  split
  · exact hj
  · exact hj
  · split
    · exact Memory.cell_modify_holds (P := fun c => c.reserved = true) (fun _ h => h) hj
    · exact Memory.cell_modify_holds (P := fun c => c.reserved = true) (fun _ h => h) hj

theorem submit_lasting {c : Command} (hc : c.Keeping) : Keeps Lasting (Machine.submit c) := by
  intro m
  change Lasting m (m.process c)
  have hrun := hc m.memory
  unfold Machine.process
  split
  · exact lasting_device _
  · exact lasting_device _
  · revert hrun
    obtain ⟨mem, answer⟩ := c.run m.memory
    cases answer <;> exact id

theorem synchronize_lasting : Keeps Lasting Machine.synchronize := by
  intro m
  rw [Machine.synchronize, outcome_bind_of_ok (outcome_get m)]
  cases m.device.failure with
  | none => exact refl_of Lasting m
  | some text => exact lasting_device _

/-! ## Tensors -/

namespace Tensor

variable {t : Tensor}

theorem create_lasting (place : Place) (backend : BackendId) (info : TensorInfo) :
    Keeps Lasting (create place backend info) := by
  intro m i hi
  have hlt : i < m.memory.length := by
    by_contra hle
    rw [Memory.cell_of_le (Nat.not_lt.1 hle)] at hi
    cases hi
  change (Memory.cell (m.memory ++ [_]) i).reserved = true
  rwa [Memory.cell_append_left hlt]

theorem reserve_lasting (i : CellId) (elements : Nat) : Keeps Lasting (Machine.reserve i elements) :=
  .of_ends fun m => Machine.reserve_ends (fun d _ _ => lasting_modify i (fun _ _ => rfl) d)
    (fun _ _ _ => refl_of Lasting m) fun _ _ _ => lasting_device _

theorem allocate_lasting : Keeps Lasting t.allocate := by
  refine Keeps.get.bind fun m => ?_
  split
  · exact Keeps.throw _
  · exact reserve_lasting _ _

theorem requireReserved_lasting : Keeps Lasting t.requireReserved := by
  refine Keeps.get.bind fun m => ?_
  split
  · exact Keeps.throw _
  · exact Keeps.pure _

theorem read_lasting : Keeps Lasting t.read := by
  refine requireReserved_lasting.bind fun _ => ?_
  split
  on_goal 1 => refine synchronize_lasting.bind fun _ => ?_
  all_goals
    refine Keeps.get.bind fun m => ?_
    split
    · exact Keeps.pure _
    · exact Keeps.throw _

theorem write_lasting (words : Buffer) : Keeps Lasting (t.write words) := by
  refine requireReserved_lasting.bind fun _ => Keeps.get.bind fun m => ?_
  dsimp only
  split
  on_goal 1 => refine (Keeps.throw _).bind fun _ => ?_
  all_goals
    split
    · exact fun m => lasting_modify t.cell (by exact fun _ h => h) m.device
    · exact submit_lasting (uploadCommand_keeping _ _)

theorem reorder_lasting (source target : Layout) (words : Buffer) :
    Keeps Lasting (t.reorder source target words) := by
  unfold reorder
  split
  · exact Keeps.pure _
  · exact Keeps.throw _

theorem readLogical_lasting : Keeps Lasting t.readLogical :=
  read_lasting.bind fun _ => reorder_lasting _ _ _

theorem writeLogical_lasting (words : Buffer) : Keeps Lasting (t.writeLogical words) :=
  (reorder_lasting _ _ _).bind fun _ => write_lasting _

theorem retain_lasting (m : Machine) : Lasting m (t.retain m) :=
  lasting_modify t.cell (by exact fun _ h => h) m.device

theorem release_lasting (m : Machine) : Lasting m (t.release m) :=
  lasting_modify t.cell (by exact fun _ h => h) _

end Tensor

theorem foldl_lasting {f : Machine → Tensor → Machine} (hf : ∀ m t, Lasting m (f m t)) :
    ∀ (ts : List Tensor) (m : Machine), Lasting m (ts.foldl f m)
  | [], m => refl_of Lasting m
  | t :: ts, m => (hf m t).trans (foldl_lasting hf ts (f m t))

theorem fill_lasting (init : Initializer) (t : Tensor) : Keeps Lasting (init.fill t) := by
  cases init with
  | copy data type => exact Tensor.writeLogical_lasting _
  | weights data shape =>
    unfold Initializer.fill
    dsimp only
    split
    · exact Tensor.write_lasting _
    · split
      · exact Tensor.write_lasting _
      · exact Keeps.throw _

theorem run_lasting (r : Runnable) : Keeps Lasting r.run := by
  cases r with
  | host label k ins out =>
    intro m
    rw [Runnable.run, outcome_bind_of_ok (outcome_get m)]
    dsimp only
    split
    · exact lasting_modify out (by exact fun _ h => h) m.device
    · exact refl_of Lasting m
  | device label k ins out => exact submit_lasting (kernelCommand_keeping _ _ _ _)
  | permute label s t =>
    exact Tensor.readLogical_lasting.bind fun _ => Tensor.writeLogical_lasting _

/-! ## Builders -/

namespace TensorBuilder

variable {b : TensorBuilder}

theorem prepare_lasting (constraints : ShapeConstraints) : Keeps Lasting (b.prepare constraints) := by
  have hprepare : Keeps Lasting (do
      let tensors ← b.createTensors (← b.wanted constraints)
      return { b with tensors, phase := .prepared, stats :=
        { b.stats with prepareCalls := b.stats.prepareCalls + 1 } } : Task TensorBuilder) :=
    (Keeps.check _).bind fun _ => (Keeps.mapM (fun _ =>
      (Tensor.create_lasting _ _ _).bind fun _ => Keeps.pure _) _).bind fun _ => Keeps.pure _
  unfold prepare
  split
  · exact (Keeps.check _).bind fun _ => hprepare
  · exact hprepare

theorem reserveAll_lasting : ∀ (ts : List Tensor) (b : TensorBuilder) (m : Machine),
    Lasting m (reserveAll ts b m).2.2
  | [], _, m => refl_of Lasting m
  | t :: ts, b, m => by
    have ht := Tensor.allocate_lasting (t := t) m
    unfold reserveAll
    rw [Task.on_eq]
    revert ht
    obtain ⟨answer, m'⟩ := outcome t.allocate m
    intro ht
    cases answer with
    | ok bytes => exact ht.trans (reserveAll_lasting ts _ m')
    | error e => exact ht

theorem allocate_lasting (b : TensorBuilder) (m : Machine) : Lasting m (b.allocate m).2.2 := by
  unfold allocate
  split
  · exact refl_of Lasting m
  · exact refl_of Lasting m
  · have hall := reserveAll_lasting (b.tensors.map (·.2))
      { b with stats := { b.stats with allocateCalls := b.stats.allocateCalls + 1 } } m
    dsimp only
    split <;> rename_i h
    all_goals
      rw [h] at hall
      exact hall

theorem addScratch_lasting (info : TensorInfo) : Keeps Lasting (b.addScratch info) := by
  have hadd : Keeps Lasting (do
      let t ← Tensor.create b.place b.backend info
      let bytes ← t.allocate
      return ({ b with scratch := b.scratch ++ [t], stats :=
        { b.stats with bytes := b.stats.bytes + bytes, scratch := b.stats.scratch + 1 } }, t) :
        Task (TensorBuilder × Tensor)) :=
    (Tensor.create_lasting _ _ _).bind fun _ => Tensor.allocate_lasting.bind fun _ => Keeps.pure _
  unfold addScratch
  split
  · exact (Keeps.check _).bind fun _ => hadd
  · exact hadd

theorem synchronize_lasting : Keeps Lasting b.synchronize := by
  unfold synchronize
  split
  · exact Keeps.pure _
  · exact HeteroNet.synchronize_lasting

end TensorBuilder

/-! ## Plans -/

namespace Plan

theorem synchronizeAll_lasting : ∀ bs : List TensorBuilder, Keeps Lasting (synchronizeAll bs)
  | [] => Keeps.pure _
  | b :: bs => by
    have hobserving : ∀ {t : Task Unit}, Keeps Lasting t → Keeps Lasting (synchronizeAll.observing t) :=
      fun ht m => ht m
    refine (hobserving TensorBuilder.synchronize_lasting).bind fun first =>
      (hobserving (synchronizeAll_lasting bs)).bind fun others => ?_
    split
    · exact Keeps.throw _
    · exact Keeps.throw _
    · exact Keeps.pure _

theorem runAll_lasting (p : Plan) : ∀ rs : List Runnable, Keeps Lasting (p.runAll rs)
  | [] => synchronizeAll_lasting _
  | r :: rs => by
    intro m
    have hr := run_lasting r m
    rw [runAll, outcome_bind_of_ok (outcome_get m), Task.on_eq]
    revert hr
    obtain ⟨answer, m'⟩ := outcome r.run m
    intro hr
    cases answer with
    | ok u =>
      dsimp only
      rw [outcome_bind_of_ok (outcome_set _ _)]
      exact hr.trans (runAll_lasting p rs m')
    | error e => exact hr.trans (synchronizeAll_lasting p.builders m')

theorem allocateAll_lasting : ∀ (bs : List TensorBuilder) (m : Machine),
    Lasting m (allocateAll bs m).2.2
  | [], m => refl_of Lasting m
  | b :: bs, m => by
    have hb := b.allocate_lasting m
    unfold allocateAll
    split <;> rename_i h <;> rw [h] at hb
    · exact hb.trans (allocateAll_lasting bs _)
    · exact hb

theorem releaseAll_lasting (bs : List TensorBuilder) (m : Machine) : Lasting m (releaseAll bs m) :=
  foldl_lasting (fun m _ => Tensor.release_lasting m) _ m

end Plan

/-! ## Assembly -/

namespace Assembly

/-- Every cell that has memory still has it. -/
def Lasting (a a' : Assembly) : Prop := a.machine.Lasting a'.machine

instance : IsPreorder Assembly Lasting where
  refl a := refl_of Machine.Lasting a.machine
  trans _ _ _ h h' := Machine.Lasting.trans h h'

theorem onMachine_lasting {t : Task α} (h : Keeps Machine.Lasting t) :
    Keeps Assembly.Lasting (onMachine t) := fun a => h a.machine

theorem tensor_lasting (id : BackendId) (i : OperandId) : Keeps Assembly.Lasting (tensor id i) := by
  refine Keeps.get.bind fun a => ?_
  split
  · exact Keeps.check _
  · exact Keeps.check _

theorem hostCell_lasting (id : BackendId) (i : OperandId) :
    Keeps Assembly.Lasting (hostCell id i) := by
  refine (tensor_lasting id i).bind fun t => ?_
  split
  · exact Keeps.throw _
  · exact Keeps.pure _

theorem deviceCellOf_lasting (t : Tensor) : Keeps Assembly.Lasting (deviceCellOf t) := by
  unfold deviceCellOf
  split
  · exact Keeps.throw _
  · exact (onMachine_lasting Tensor.requireReserved_lasting).bind fun _ => Keeps.pure _

theorem deviceCell_lasting (id : BackendId) (i : OperandId) :
    Keeps Assembly.Lasting (deviceCell id i) :=
  (tensor_lasting id i).bind deviceCellOf_lasting

theorem addScratchTo_lasting (id : BackendId) (info : TensorInfo) :
    ∀ bs : List TensorBuilder, Keeps Machine.Lasting (addScratchTo id info bs)
  | [] => Keeps.throw _
  | b :: bs => by
    unfold addScratchTo
    split
    · exact (TensorBuilder.addScratch_lasting info).bind fun _ => Keeps.pure _
    · exact (addScratchTo_lasting id info bs).bind fun _ => Keeps.pure _

theorem scratch_lasting (id : BackendId) (info : TensorInfo) :
    Keeps Assembly.Lasting (scratch id info) :=
  Keeps.get.bind fun _ => (onMachine_lasting (addScratchTo_lasting _ _ _)).bind fun _ a =>
    refl_of Machine.Lasting a.machine

theorem append_lasting (r : Runnable) : Keeps Assembly.Lasting (append r) :=
  fun a => refl_of Machine.Lasting a.machine

end Assembly

open Assembly in
theorem apply_lasting (s : Stage) : Keeps Assembly.Lasting s.apply := by
  cases s with
  | host backend k ins out =>
    exact (Keeps.mapM (hostCell_lasting backend) ins).bind fun _ =>
      (hostCell_lasting backend out).bind fun _ => append_lasting _
  | device backend k act ins out fl =>
    have hflatten : ∀ cells, Keeps Assembly.Lasting (Stage.applyFlatten backend fl ins cells) := by
      intro cells
      unfold Stage.applyFlatten
      split
      · exact (scratch_lasting _ _).bind fun _ => (deviceCellOf_lasting _).bind fun _ =>
          (append_lasting _).bind fun _ => Keeps.pure _
      · exact Keeps.pure _
    refine (deviceCell_lasting backend out).bind fun _ =>
      (Keeps.mapM (deviceCell_lasting backend) ins).bind fun _ => (hflatten _).bind fun _ =>
      (append_lasting _).bind fun _ => ?_
    split
    · exact append_lasting _
    · exact Keeps.pure _
  | permute x o source target =>
    exact (tensor_lasting _ _).bind fun _ => (tensor_lasting _ _).bind fun _ => append_lasting _

theorem assemble_lasting (d : PlanDraft) (model : Model) :
    Keeps Assembly.Lasting (d.assemble model) := by
  have hfill : ∀ p : Plan, Keeps Machine.Lasting (p.fillConstants d.initializers) := by
    intro p
    unfold Plan.fillConstants
    exact Keeps.forM (fun (i, init) => Keeps.forM (fill_lasting init) (p.tensors i)) _
  have hrest : Keeps Assembly.Lasting (do
      d.stages.forM Stage.apply
      let a ← get
      let plan : Plan := { model, builders := a.builders, runnables := a.runnables }
      Assembly.onMachine (plan.fillConstants d.initializers)
      Assembly.onMachine plan.synchronize
      return plan : Assemble Plan) :=
    (Keeps.forM apply_lasting _).bind fun _ => Keeps.get.bind fun _ =>
      (Assembly.onMachine_lasting (hfill _)).bind fun _ =>
      (Assembly.onMachine_lasting (Plan.synchronizeAll_lasting _)).bind fun _ => Keeps.pure _
  intro a
  have hallocated := Plan.allocateAll_lasting a.builders a.machine
  unfold PlanDraft.assemble
  rw [outcome_bind_of_ok (outcome_get a)]
  dsimp only
  rw [outcome_bind_of_ok (outcome_set _ _)]
  have hanswer := (Keeps.check (Plan.allocateAll a.builders a.machine).1).bind fun _ => hrest
  exact Machine.Lasting.trans hallocated (hanswer
    ⟨(Plan.allocateAll a.builders a.machine).2.1, a.runnables, _⟩)

theorem finalize_lasting (d : PlanDraft) (model : Model) (bs : List TensorBuilder) :
    Keeps Lasting (d.finalize model bs) := by
  refine (Keeps.mapM (fun b => TensorBuilder.prepare_lasting _) _).bind fun bs m => ?_
  have hassemble := assemble_lasting d model { builders := bs, machine := m }
  rw [outcome_bind_of_ok (outcome_get m)]
  unfold outcome at hassemble
  revert hassemble
  obtain ⟨answer, a⟩ := StateT.run (ExceptT.run (d.assemble model)) { builders := bs, machine := m }
  intro hassemble
  cases answer with
  | ok p => exact hassemble
  | error e => exact Machine.Lasting.trans hassemble (Plan.releaseAll_lasting _ _)

/-! ## Compilations -/

theorem backend_start_lasting (b : Backend) (m : Machine) : Lasting m (b.start m).2.2 := by
  have hrun : Keeps Lasting b.runStartup := by
    unfold Backend.runStartup
    split
    · exact Keeps.pure _
    · exact synchronize_lasting
    · split
      · exact Keeps.throw _
      · exact Keeps.pure _
  have hm := hrun m
  unfold Backend.start
  split
  · exact refl_of Lasting m
  · rw [Task.on_eq]
    revert hm
    obtain ⟨answer, m'⟩ := outcome b.runStartup m
    cases answer <;> exact id

namespace Platform

/-- Every cell that has memory still has it. -/
def Lasting (s s' : Platform) : Prop := s.machine.Lasting s'.machine

instance : IsPreorder Platform Lasting where
  refl s := refl_of Machine.Lasting s.machine
  trans _ _ _ h h' := Machine.Lasting.trans h h'

theorem start_lasting (id : BackendId) : Keeps Platform.Lasting (start id) := by
  intro s
  rw [start, outcome_bind_of_ok (outcome_get s)]
  cases s.registry.lookup id with
  | error e => exact refl_of Platform.Lasting s
  | ok b =>
    rw [outcome_bind_of_ok (outcome_lift_of_ok rfl s)]
    have hb := backend_start_lasting b s.machine
    dsimp only
    revert hb
    obtain ⟨answer, b', m⟩ := b.start s.machine
    intro hb
    cases answer <;> exact hb

end Platform

theorem markTensor_lasting (cs : SortedMap BackendId Context) (need : BackendId × OperandId) :
    Keeps Platform.Lasting (markTensor cs need) := by
  obtain ⟨id, i⟩ := need
  have hrest : ∀ c : Context, Keeps Platform.Lasting (do
      let builder ← c.builder.mark i
      return cs.insert id { c with builder } : PlatformTask (SortedMap BackendId Context)) :=
    fun c => (Keeps.check _).bind fun _ => Keeps.pure _
  unfold markTensor
  dsimp only
  cases cs.find? id with
  | some c => exact hrest c
  | none =>
    exact ((Platform.start_lasting id).bind fun b => Keeps.pure _).bind fun c => hrest c

theorem compile_lasting (model : Model) (policy : Policy) :
    Keeps Platform.Lasting (compile model policy) := by
  refine Keeps.get.bind fun s => (Keeps.lift _).bind fun m => (Keeps.lift _).bind fun order =>
    (Keeps.lift _).bind fun marks => ?_
  refine (Keeps.foldlM (fun cs need => markTensor_lasting cs need) marks []).bind fun cs => ?_
  exact (Keeps.check _).bind fun d => fun s => finalize_lasting d m _ s.machine

/-! ## Sessions -/

namespace Session

/-- Every cell that has memory still has it. -/
def Lasting (x y : Session × Machine) : Prop := x.2.Lasting y.2

instance : IsPreorder (Session × Machine) Session.Lasting where
  refl x := refl_of Machine.Lasting x.2
  trans _ _ _ h h' := Machine.Lasting.trans h h'

theorem onMachine_lasting {t : Task α} (h : Keeps Machine.Lasting t) :
    Keeps Session.Lasting (onMachine t) := fun x => h x.2

theorem pushAll_lasting (s : Session) : Keeps Machine.Lasting s.pushAll := by
  refine Keeps.forM (fun source => ?_) _
  split
  · exact Keeps.forM (fun t => Tensor.writeLogical_lasting _) _
  · exact Keeps.pure _

theorem pullOne_lasting (slot : SlotId) : Keeps Session.Lasting (pullOne slot) := by
  refine Keeps.get.bind fun x => ?_
  obtain ⟨s, m⟩ := x
  dsimp only
  split
  · split
    · exact (onMachine_lasting (Tensor.readLogical_lasting.bind fun _ => Keeps.pure _)).bind
        fun _ x => refl_of Machine.Lasting x.2
    · exact Keeps.throw _
  · exact Keeps.pure _

theorem run_lasting : Keeps Session.Lasting Session.run := by
  refine Keeps.get.bind fun x => (Keeps.lift _).bind fun _ =>
    (onMachine_lasting (pushAll_lasting _)).bind fun _ =>
    (onMachine_lasting (Plan.runAll_lasting _ _)).bind fun _ =>
    (Keeps.forM pullOne_lasting _).bind fun _ y => refl_of Machine.Lasting y.2

theorem call_lasting (c : Call) : Keeps Session.Lasting c.task := by
  have hrebind : ∀ f : Session → Except Error Session, Keeps Session.Lasting (rebind f) :=
    fun f x => by
      rw [outcome_rebind]
      cases f x.1 <;> exact refl_of Machine.Lasting x.2
  cases c with
  | setInput slot buffer => exact hrebind (·.setInput slot buffer)
  | setOutput slot buffer => exact hrebind (·.setOutput slot buffer)
  | run => exact run_lasting

end Session

/-! ## Later machines -/

/-- What becomes of a machine: models are compiled on it, for any backends, sessions are called, on
any plans, faults are injected, and memory gets and loses holders. -/
inductive Machine.Later (m : Machine) : Machine → Prop
  | now : Later m m
  | compiled {m' : Machine} (model : Model) (policy : Policy) (registry : Registry) :
    Later m m' → Later m (outcome (compile model policy) ⟨registry, m'⟩).2.machine
  | called {m' : Machine} (s : Session) (c : Session.Call) :
    Later m m' → Later m (outcome c.task (s, m')).2.2
  | fault {m' : Machine} (text : String) : Later m m' → Later m (m'.injectFault text)
  | retained {m' : Machine} (p : Plan) : Later m m' → Later m (p.retain m')
  | released {m' : Machine} (p : Plan) : Later m m' → Later m (p.release m')

/-- **What has memory has it on every later machine.** -/
theorem Machine.Later.lasting (h : Machine.Later m m') : Lasting m m' := by
  induction h with
  | now => exact refl_of Lasting m
  | compiled model policy registry _ ih => exact ih.trans (compile_lasting model policy ⟨registry, _⟩)
  | called s c _ ih => exact ih.trans (Session.call_lasting c (s, _))
  | fault text _ ih => exact ih.trans (lasting_device _)
  | retained p _ ih => exact ih.trans (foldl_lasting (fun m _ => Tensor.retain_lasting m) _ _)
  | released p _ ih => exact ih.trans (foldl_lasting (fun m _ => Tensor.release_lasting m) _ _)

end HeteroNet
