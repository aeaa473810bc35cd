import HeteroNet.Proofs.Call
import HeteroNet.Proofs.Machine.Memory
import HeteroNet.Queue

/-
The queue against commands that run when they are submitted. If the worker went on to the end of the
queue, the machine would be the one on which every command has run when it was submitted: that holds
at every turn, whatever the schedule (`Follows`). For the host cannot tell how far the worker is.
What it asks of a tensor before it sends a command, whether it has memory and how much, no command
changes; and what commands do change it sees only behind a fence, when the queue is empty.
-/

namespace HeteroNet

variable {m m' m₀ : Machine} {mem mem' : Memory} {t : Tensor}

/-! ## Slots -/

namespace Memory

theorem slot_cell (h : mem.slots = mem'.slots) (i : CellId) :
    (mem.cell i).slot = (mem'.cell i).slot := by
  have hget : ∀ m : Memory, (m.cell i).slot = m.slots.getD i (default : Cell).slot := fun m => by
    simp only [cell, slots, List.getD_eq_getElem?_getD, List.getElem?_map]
    cases m[i]? <;> rfl
  rw [hget, hget, h]

theorem reserved_of_slots (h : mem.slots = mem'.slots) (i : CellId) :
    (mem.cell i).reserved = (mem'.cell i).reserved :=
  congrArg (fun s => s.2.2.1) (slot_cell h i)

theorem size_of_slots (h : mem.slots = mem'.slots) (i : CellId) :
    (mem.cell i).words.size = (mem'.cell i).words.size :=
  congrArg (fun s => s.2.1) (slot_cell h i)

theorem slots_store {i : CellId} {words : Buffer} (h : words.size = (mem.cell i).words.size) :
    (mem.store i words).slots = mem.slots := by
  refine List.ext_getElem? fun j => ?_
  simp only [slots, store, List.getElem?_map, List.getElem?_modify]
  by_cases hij : i = j
  · subst hij
    cases hi : mem[i]? with
    | none => simp
    | some c =>
      have hc : mem.cell i = c := by simp [cell, List.getD_eq_getElem?_getD, hi]
      simp [Cell.slot, h, hc]
  · simp [hij]

end Memory

/-- On memory of these slots the command leaves them as they are. -/
def Command.Fits (c : Command) (slots : List (Place × Nat × Bool × Nat)) : Prop :=
  ∀ mem : Memory, mem.slots = slots → Memory.slots (c.run mem).1 = slots

theorem Job.Writes.fits {j : Job} (h : j.Writes) (slots : List (Place × Nat × Bool × Nat)) :
    j.command.Fits slots := fun mem hmem => (h mem).trans hmem

theorem uploadCommand_fits {i : CellId} {words : Buffer}
    (h : words.size = (mem.cell i).words.size) :
    (Tensor.uploadCommand i words).Fits mem.slots := by
  intro mem' hslots
  simp only [Tensor.uploadCommand]
  split
  · rw [Memory.slots_store (h.trans (Memory.size_of_slots hslots i).symm), hslots]
  · exact hslots

theorem process_slots {c : Command} (h : c.Fits m.memory.slots) :
    (m.process c).memory.slots = m.memory.slots := by
  have hrun := h m.memory rfl
  unfold Machine.process
  split
  · rfl
  · rfl
  · revert hrun
    obtain ⟨mem, answer⟩ := c.run m.memory
    cases answer <;> exact fun hrun => hrun

/-! ## What the host asks before it sends -/

theorem outcome_requireReserved (t : Tensor) (m : Machine) : outcome t.requireReserved m =
    (if (t.place = .device && !(m.memory.cell t.cell).reserved) = true then
      .error (.error (.allocation (.notPrepared t.backend))) else .ok (), m) := by
  rw [Tensor.requireReserved, outcome_bind_of_ok (outcome_get m)]
  split <;> rfl

theorem requireReserved_congr (h : m.memory.slots = m'.memory.slots) (t : Tensor) :
    (outcome t.requireReserved m).1 = (outcome t.requireReserved m').1 := by
  rw [outcome_requireReserved, outcome_requireReserved, Memory.reserved_of_slots h]

theorem requireReserved_keeps (t : Tensor) (m : Machine) :
    outcome t.requireReserved m = ((outcome t.requireReserved m).1, m) := by
  rw [outcome_requireReserved]

/-- What follows the check goes on from the same machine. -/
theorem requireReserved_bind {α : Type} (t : Tensor) (f : Unit → Task α) (m : Machine) :
    outcome (t.requireReserved >>= f) m =
      match (outcome t.requireReserved m).1 with
      | .ok _ => outcome (f ()) m
      | .error e => (.error e, m) := by
  rw [outcome_bind, requireReserved_keeps]
  cases (outcome t.requireReserved m).1 <;> rfl

/-- The checks before an upload leave the machine alone. -/
theorem outcome_upload (t : Tensor) (words : Buffer) (m : Machine) : outcome (t.upload words) m =
    ((outcome t.requireReserved m).1 >>= fun _ =>
      if words.size ≠ (m.memory.cell t.cell).words.size then
        .error (.error (.execution (.backend t.backend
          s!"write of {words.size} elements into a tensor of {(m.memory.cell t.cell).words.size}")))
      else .ok (Tensor.uploadCommand t.cell words), m) := by
  rw [Tensor.upload, requireReserved_bind]
  cases (outcome t.requireReserved m).1 with
  | error e => rfl
  | ok u =>
    dsimp only
    rw [outcome_bind_of_ok (outcome_get m)]
    by_cases hsize : words.size = (m.memory.cell t.cell).words.size
    · rw [if_neg (not_not.2 hsize), if_neg (not_not.2 hsize)]
      rfl
    · rw [if_pos hsize, if_pos hsize]
      rfl

theorem upload_keeps (t : Tensor) (words : Buffer) (m : Machine) :
    outcome (t.upload words) m = ((outcome (t.upload words) m).1, m) := by
  rw [outcome_upload]

theorem upload_congr (h : m.memory.slots = m'.memory.slots) (t : Tensor) (words : Buffer) :
    (outcome (t.upload words) m).1 = (outcome (t.upload words) m').1 := by
  rw [outcome_upload, outcome_upload, requireReserved_congr h, Memory.size_of_slots h]

theorem upload_ok {c : Command} {words : Buffer} (h : (outcome (t.upload words) m).1 = .ok c) :
    c.Fits m.memory.slots := by
  rw [outcome_upload] at h
  obtain ⟨_, -, h⟩ := bind_eq_ok.1 h
  split at h
  · cases h
  · rename_i hsize
    cases h
    exact uploadCommand_fits (not_not.1 hsize)

/-! ## What calls come to -/

/-- Writing is sending what the checks gave. -/
theorem write_task (ht : t.place = .device) (words : Buffer) (m : Machine) :
    outcome (Request.write t ht words).task m =
      match (outcome (t.upload words) m).1 with
      | .ok c => (.ok none, m.process c)
      | .error e => (.error e, m) := by
  rw [Request.task, outcome_bind, Tensor.write, requireReserved_bind, outcome_upload]
  cases (outcome t.requireReserved m).1 with
  | error e => rfl
  | ok u =>
    dsimp only
    rw [outcome_bind_of_ok (outcome_get m)]
    by_cases hsize : words.size = (m.memory.cell t.cell).words.size
    · rw [if_neg (not_not.2 hsize), if_neg (not_not.2 hsize), ht]
      rfl
    · rw [if_pos hsize, if_pos hsize]
      rfl

/-- Reading is waiting, then reading. -/
theorem read_task (ht : t.place = .device) (m : Machine) :
    outcome (Request.read t ht).task m =
      match (outcome t.requireReserved m).1 with
      | .ok _ => outcome (afterFence (some t)) m
      | .error e => (.error e, m) := by
  rw [Request.task, outcome_bind, Tensor.read, requireReserved_bind]
  cases (outcome t.requireReserved m).1 with
  | error e => rfl
  | ok u =>
    dsimp only
    rw [if_pos ht, afterFence, outcome_bind, outcome_bind]
    obtain ⟨answer, m'⟩ := outcome Machine.synchronize m
    cases answer with
    | error e => rfl
    | ok u =>
      dsimp only
      rw [outcome_bind_of_ok (outcome_get m'), outcome_bind_of_ok (outcome_get m')]
      cases m'.memory.load t.cell <;> rfl

/-- Reporting what failed and reading do not change memory. -/
theorem afterFence_memory (read : Option Tensor) (m : Machine) :
    (outcome (afterFence read) m).2.memory = m.memory := by
  have hsync : (outcome Machine.synchronize m).2.memory = m.memory := by
    rw [Machine.synchronize, outcome_bind_of_ok (outcome_get m)]
    cases m.device.failure <;> rfl
  unfold afterFence
  rw [outcome_bind]
  revert hsync
  obtain ⟨answer, m'⟩ := outcome Machine.synchronize m
  intro hsync
  cases answer with
  | error e => exact hsync
  | ok u =>
    cases read with
    | none => exact hsync
    | some t =>
      dsimp only
      rw [outcome_bind_of_ok (outcome_get m')]
      cases m'.memory.load t.cell <;> exact hsync

theorem synchronize_task (m : Machine) :
    outcome Request.synchronize.task m = outcome (afterFence none) m := rfl

/-- One more call. -/
theorem eager_concat (r : Request) : ∀ (calls : List Request) (m : Machine),
    eager (calls ++ [r]) m = ((eager calls m).1 ++ [(outcome r.task (eager calls m).2).1],
      (outcome r.task (eager calls m).2).2)
  | [], _ => rfl
  | r' :: calls, m => by
    simp only [List.cons_append, eager, eager_concat r calls]

theorem length_eager : ∀ (calls : List Request) (m : Machine),
    (eager calls m).1.length = calls.length
  | [], _ => rfl
  | _ :: calls, _ => congrArg Nat.succ (length_eager calls _)

/-! ## What is still in the queue -/

def Item.settle (m : Machine) : Item → Machine
  | job c => m.process c
  | fence => m

namespace Queue

variable {q : Queue} {slots : List (Place × Nat × Bool × Nat)}

/-- The machine after all that is in the queue. -/
def settled (q : Queue) : Machine := q.pending.foldl Item.settle q.machine

theorem settled_send (q : Queue) (i : Item) : (q.send i).settled = i.settle q.settled := by
  simp [settled, send]

theorem settled_of_nil (h : q.pending = []) : q.settled = q.machine := by
  rw [settled, h]
  rfl

theorem settle_slots {pending : List Item} (hfits : ∀ c, .job c ∈ pending → c.Fits slots) :
    ∀ {m : Machine}, m.memory.slots = slots →
      (pending.foldl Item.settle m).memory.slots = slots := by
  induction pending with
  | nil => exact fun hm => hm
  | cons i pending ih =>
    intro m hm
    refine ih (fun c hc => hfits c (List.mem_cons_of_mem _ hc)) ?_
    cases i with
    | fence => exact hm
    | job c => exact (process_slots (hm ▸ hfits c List.mem_cons_self)).trans hm

/-! ## Every turn -/

/-- On a machine of these slots the call comes to what is left of it behind its fence. -/
def Waits (slots : List (Place × Nat × Bool × Nat)) (r : Request) (read : Option Tensor) : Prop :=
  ∀ m : Machine, m.memory.slots = slots → outcome r.task m = outcome (afterFence read) m

/-- Where the host is, with the calls `done` answered and the calls `current` begun. There is a fence
in the queue only while the host waits for it, and then it is the last item. -/
inductive Standing (slots : List (Place × Nat × Bool × Nat)) (done : List Request) :
    Host → List Item → List Request → Prop
  | ready {pending} : .fence ∉ pending → (done.getLast? = some .synchronize → pending = []) →
    Standing slots done .ready pending []
  | waiting {jobs r read} : .fence ∉ jobs → Waits slots r read →
    Standing slots done (.waiting read) (jobs ++ [.fence]) [r]
  | woken {r read} : Waits slots r read → Standing slots done (.woken read) [] [r]

namespace Standing

variable {slots : List (Place × Nat × Bool × Nat)} {done current : List Request} {host : Host}
  {pending : List Item}

/-- Taking a command from the front. -/
theorem tail {c : Command} (h : Standing slots done host (.job c :: pending) current) :
    Standing slots done host pending current := by
  generalize hall : Item.job c :: pending = all at h
  cases h with
  | ready hfence hsync =>
    subst hall
    exact .ready (fun hp => hfence (List.mem_cons_of_mem _ hp)) fun hlast => by
      cases hsync hlast
  | @waiting jobs r read hfence hwaits =>
    cases jobs with
    | nil => cases hall
    | cons i jobs =>
      cases hall
      exact .waiting (fun hp => hfence (List.mem_cons_of_mem _ hp)) hwaits
  | woken => cases hall

/-- Meeting the fence. -/
theorem met (h : Standing slots done host (.fence :: pending) current) :
    pending = [] ∧ Standing slots done host.wake [] current := by
  generalize hall : Item.fence :: pending = all at h
  cases h with
  | ready hfence =>
    subst hall
    exact absurd List.mem_cons_self hfence
  | @waiting jobs r read hfence hwaits =>
    cases jobs with
    | nil =>
      cases hall
      exact ⟨rfl, .woken hwaits⟩
    | cons i jobs =>
      cases hall
      exact absurd List.mem_cons_self hfence
  | woken => cases hall

end Standing

/-- The queue follows the machine `m₀` on which commands run when they are submitted. -/
structure Follows (m₀ : Machine) (script : List Request) (q : Queue) : Prop where
  slots : q.machine.memory.slots = m₀.memory.slots
  fits : ∀ c, .job c ∈ q.pending → c.Fits m₀.memory.slots
  calls : ∃ done current, script = done ++ current ++ q.script ∧
    eager done m₀ = (q.answers, q.settled) ∧ Standing m₀.memory.slots done q.host q.pending current

variable {script rest done : List Request} {r : Request} {a : Reply}

theorem follows_start (m₀ : Machine) (script : List Request) :
    Follows m₀ script (start m₀ script) where
  slots := rfl
  fits c hc := by cases hc
  calls := ⟨[], [], rfl, rfl, .ready (by simp [start]) fun h => by cases h⟩

theorem Follows.settled_slots (h : Follows m₀ script q) :
    q.settled.memory.slots = m₀.memory.slots := settle_slots h.fits h.slots

/-- The call is answered, and nothing is waited for. -/
theorem Follows.answered (h : Follows m₀ script q) (hhost : q.host = .ready)
    (hscript : q.script = r :: rest) {q' : Queue} (hrest : q'.script = rest)
    (hslots : q'.machine.memory.slots = m₀.memory.slots)
    (hfits : ∀ c, .job c ∈ q'.pending → c.Fits m₀.memory.slots)
    (hhost' : q'.host = .ready) (hanswers : q'.answers = q.answers ++ [a])
    (hrun : outcome r.task q.settled = (a, q'.settled)) (hfence : .fence ∉ q'.pending)
    (hsync : r ≠ .synchronize) : Follows m₀ script q' := by
  obtain ⟨done, current, hcalls, heager, hstanding⟩ := h.calls
  rw [hhost] at hstanding
  cases hstanding with
  | ready =>
    refine ⟨hslots, hfits, done ++ [r], [], ?_, ?_, ?_⟩
    · rw [hcalls, hscript, hrest]
      simp
    · rw [eager_concat, heager, hrun, hanswers]
    · rw [hhost']
      refine .ready hfence fun hlast => ?_
      rw [List.getLast?_concat, Option.some.injEq] at hlast
      exact absurd hlast hsync

/-- The call sends its fence. -/
theorem Follows.wait (h : Follows m₀ script q) (hhost : q.host = .ready)
    (hscript : q.script = r :: rest) {read : Option Tensor} (hwaits : Waits m₀.memory.slots r read) :
    Follows m₀ script ({ q with script := rest }.wait read) := by
  obtain ⟨done, current, hcalls, heager, hstanding⟩ := h.calls
  rw [hhost] at hstanding
  cases hstanding with
  | ready hfence =>
    refine ⟨h.slots, fun c hc => ?_, done, [r], ?_, ?_, .waiting hfence hwaits⟩
    · exact h.fits c (by simpa [Queue.wait, send] using hc)
    · rw [hcalls, hscript]
      simp [Queue.wait, send]
    · rw [heager]
      have hsettled : ({ q with script := rest }.wait read).settled = q.settled :=
        settled_send { q with script := rest } .fence
      rw [hsettled]
      rfl

/-- A command is sent, and the call answered. -/
theorem Follows.send (h : Follows m₀ script q) (hhost : q.host = .ready)
    (hscript : q.script = r :: rest) {c : Command} (hc : c.Fits m₀.memory.slots)
    (hrun : outcome r.task q.settled = (.ok none, q.settled.process c)) (hsync : r ≠ .synchronize) :
    Follows m₀ script (({ q with script := rest }.send (.job c)).answer (.ok none)) := by
  have hsettled : (({ q with script := rest }.send (.job c)).answer (.ok none)).settled
      = q.settled.process c :=
    settled_send { q with script := rest } (.job c)
  have hfence : .fence ∉ q.pending ++ [.job c] := by
    obtain ⟨done, current, -, -, hstanding⟩ := h.calls
    rw [hhost] at hstanding
    cases hstanding with
    | ready hfence => simpa using hfence
  refine h.answered hhost hscript rfl h.slots (fun c' hc' => ?_) hhost rfl (hsettled ▸ hrun) hfence
    hsync
  have hc' : .job c' ∈ q.pending ∨ c' = c := by simpa [Queue.send, answer] using hc'
  rcases hc' with hc' | rfl
  · exact h.fits c' hc'
  · exact hc

/-- The call is refused before anything is sent. -/
theorem Follows.refuse (h : Follows m₀ script q) (hhost : q.host = .ready)
    (hscript : q.script = r :: rest) {e : Failure}
    (hrun : outcome r.task q.settled = (.error e, q.settled))
    (hsync : r ≠ .synchronize) :
    Follows m₀ script ({ q with script := rest }.answer (.error e)) := by
  have hfence : .fence ∉ q.pending := by
    obtain ⟨done, current, -, -, hstanding⟩ := h.calls
    rw [hhost] at hstanding
    cases hstanding with
    | ready hfence => exact hfence
  exact h.answered hhost hscript rfl h.slots h.fits hhost rfl hrun hfence hsync

theorem Follows.make (h : Follows m₀ script q) (hhost : q.host = .ready)
    (hscript : q.script = r :: rest) : Follows m₀ script (q.make rest r) := by
  have hsame : q.machine.memory.slots = q.settled.memory.slots := h.slots.trans h.settled_slots.symm
  cases r with
  | enqueue j writes => exact h.send hhost hscript (writes.fits _) rfl (by simp)
  | synchronize => exact h.wait hhost hscript fun m _ => synchronize_task m
  | write t ht words =>
    have hrun := write_task ht words q.settled
    rw [← upload_congr hsame] at hrun
    have hon : (t.upload words).on q.machine = ((outcome (t.upload words) q.machine).1, q.machine) :=
      upload_keeps t words q.machine
    simp only [Queue.make, hon]
    cases hanswer : (outcome (t.upload words) q.machine).1 with
    | error e =>
      rw [hanswer] at hrun
      exact h.refuse hhost hscript hrun (by simp)
    | ok c =>
      rw [hanswer] at hrun
      exact h.send hhost hscript (h.slots ▸ upload_ok hanswer) hrun (by simp)
  | read t ht =>
    have hrun := read_task ht q.settled
    rw [← requireReserved_congr hsame] at hrun
    have hon : t.requireReserved.on q.machine
        = ((outcome t.requireReserved q.machine).1, q.machine) := requireReserved_keeps t q.machine
    simp only [Queue.make, hon]
    cases hanswer : (outcome t.requireReserved q.machine).1 with
    | error e =>
      rw [hanswer] at hrun
      exact h.refuse hhost hscript hrun (by simp)
    | ok u =>
      refine h.wait hhost hscript fun m hm => ?_
      rw [read_task, ← requireReserved_congr (h.slots.trans hm.symm), hanswer]
  | injectFault text =>
    simp only [Queue.make]
    split
    · rename_i hpending
      refine h.answered hhost hscript rfl h.slots (by simp [answer, hpending]) hhost rfl ?_
        (by simp [answer, hpending]) (by simp)
      rw [settled_of_nil hpending, settled_of_nil (by exact hpending)]
      rfl
    · exact h

/-- The host ends the call in which it waited. -/
theorem Follows.endCall (h : Follows m₀ script q) {read : Option Tensor}
    (hhost : q.host = .woken read) :
    Follows m₀ script (q.endCall read) := by
  obtain ⟨done, current, hcalls, heager, hstanding⟩ := h.calls
  rw [hhost] at hstanding
  generalize hpending : q.pending = pending at hstanding
  cases hstanding with
  | @woken r _ hwaits =>
    have hsettled := settled_of_nil hpending
    have hpending' : (q.endCall read).pending = [] := hpending
    refine ⟨?_, fun c hc => ?_, done ++ [r], [], ?_, ?_, ?_⟩
    · exact (congrArg Memory.slots (afterFence_memory read q.machine)).trans h.slots
    · rw [hpending'] at hc
      cases hc
    · rw [hcalls, List.append_nil]
      rfl
    · rw [eager_concat, heager, hsettled, hwaits q.machine h.slots, settled_of_nil hpending']
      rfl
    · rw [hpending']
      exact .ready (by simp) fun _ => rfl

theorem Follows.hostTurn (h : Follows m₀ script q) : Follows m₀ script q.hostTurn := by
  unfold Queue.hostTurn
  split
  · exact h
  · rename_i r rest hhost hscript
    exact h.make hhost hscript
  · exact h
  · rename_i read hhost
    exact h.endCall hhost

/-- The worker brings the machine nearer to where the queue leads. -/
theorem Follows.workerTurn (h : Follows m₀ script q) : Follows m₀ script q.workerTurn := by
  obtain ⟨done, current, hcalls, heager, hstanding⟩ := h.calls
  unfold Queue.workerTurn
  split
  · exact h
  · rename_i c rest hpending
    have hc : c.Fits m₀.memory.slots := h.fits c (by simp [hpending])
    refine ⟨(process_slots (h.slots ▸ hc)).trans h.slots, fun c' hc' => h.fits c' ?_, done, current,
      hcalls, ?_, ?_⟩
    · rw [hpending]
      exact List.mem_cons_of_mem _ hc'
    · rw [heager, settled, settled, hpending]
      rfl
    · rw [hpending] at hstanding
      exact hstanding.tail
  · rename_i rest hpending
    rw [hpending] at hstanding
    obtain ⟨rfl, hwoken⟩ := hstanding.met
    refine ⟨h.slots, fun c hc => (by cases hc), done, current, hcalls, ?_, hwoken⟩
    rw [heager, settled, settled, hpending]
    rfl

/-- **Every turn keeps to the machine on which commands run when they are submitted.** -/
theorem Follows.turn (h : Follows m₀ script q) (t : Turn) : Follows m₀ script (q.turn t) := by
  cases t with
  | host => exact h.hostTurn
  | worker => exact h.workerTurn

theorem Follows.run (schedule : List Turn) : ∀ {q : Queue}, Follows m₀ script q →
    Follows m₀ script (q.run schedule) := by
  induction schedule with
  | nil => exact fun h => h
  | cons t schedule ih => exact fun h => ih (h.turn t)

/-! ## To the end of the script -/

theorem run_append (q : Queue) (ts us : List Turn) : q.run (ts ++ us) = (q.run ts).run us :=
  List.foldl_append

/-- The worker can empty the queue. -/
theorem exists_drained (q : Queue) : ∃ turns, (q.run turns).pending = [] ∧
    (q.run turns).script = q.script := by
  induction hn : q.pending.length generalizing q with
  | zero => exact ⟨[], List.length_eq_zero_iff.1 hn, rfl⟩
  | succ n ih =>
    have hturn : q.workerTurn.pending.length = n ∧ q.workerTurn.script = q.script := by
      unfold Queue.workerTurn
      split <;> simp_all
    obtain ⟨turns, hpending, hscript⟩ := ih q.workerTurn hturn.1
    exact ⟨.worker :: turns, hpending, hscript.trans hturn.2⟩

/-- With an empty queue the host makes its next call. -/
theorem make_script (h : q.pending = []) (r : Request) : (q.make rest r).script = rest := by
  cases r with
  | enqueue | synchronize => rfl
  | write t ht words =>
    simp only [Queue.make]
    split <;> rfl
  | read t ht =>
    simp only [Queue.make]
    split <;> rfl
  | injectFault text =>
    simp only [Queue.make, h]
    rfl

/-- A call that has begun can be brought to its end. -/
theorem Follows.exists_idle (h : Follows m₀ script q) : ∃ turns, (q.run turns).pending = [] ∧
    (q.run turns).host = .ready ∧ (q.run turns).script = q.script := by
  obtain ⟨turns, hpending, hscript⟩ := q.exists_drained
  obtain ⟨done, current, -, -, hstanding⟩ := (h.run turns).calls
  cases hhost : (q.run turns).host with
  | ready => exact ⟨turns, hpending, hhost, hscript⟩
  | waiting read =>
    rw [hpending, hhost] at hstanding
    generalize hnil : ([] : List Item) = pending at hstanding
    cases hstanding with
    | waiting => simp at hnil
  | woken read =>
    have hturn : q.run (turns ++ [.host]) = (q.run turns).endCall read := by
      rw [run_append]
      change (q.run turns).hostTurn = _
      rw [Queue.hostTurn, hhost]
    exact ⟨turns ++ [.host], hturn ▸ hpending, hturn ▸ rfl, hturn ▸ hscript⟩

/-- Every call of the script can be brought to its end. -/
theorem Follows.exists_finished (h : Follows m₀ script q) : ∃ turns, (q.run turns).pending = [] ∧
    (q.run turns).host = .ready ∧ (q.run turns).script = [] := by
  induction hn : q.script.length generalizing q with
  | zero =>
    obtain ⟨turns, hpending, hhost, hscript⟩ := h.exists_idle
    exact ⟨turns, hpending, hhost, hscript.trans (List.length_eq_zero_iff.1 hn)⟩
  | succ n ih =>
    obtain ⟨turns, hpending, hhost, hscript⟩ := h.exists_idle
    cases hq : q.script with
    | nil => simp [hq] at hn
    | cons r rest =>
      have hturn : ((q.run turns).turn .host).script = rest := by
        rw [hq] at hscript
        simp only [Queue.turn, Queue.hostTurn, hhost, hscript]
        exact make_script hpending r
      obtain ⟨more, hend⟩ := ih ((h.run turns).turn .host) (by
        rw [hturn]
        simpa [hq] using hn)
      refine ⟨turns ++ .host :: more, ?_⟩
      rw [run_append]
      exact hend

/-! ## Schedules -/

theorem Follows.length_answers (h : Follows m₀ script q) (hhost : q.host = .ready)
    (hscript : q.script = []) : q.answers.length = script.length := by
  obtain ⟨done, current, hcalls, heager, hstanding⟩ := h.calls
  rw [hhost] at hstanding
  cases hstanding with
  | ready =>
    have hlength := length_eager done m₀
    rw [heager] at hlength
    simp [hcalls, hscript, hlength]

/-- What the calls answered so far, they answer on the machine on which commands run when they are
submitted; and when nothing is left in the queue, or the last call was a synchronize, that machine
is the queue's. -/
theorem Follows.agrees (h : Follows m₀ script q) :
    q.answers = (eager (script.take q.answers.length) m₀).1 ∧
    (q.host = .ready →
      (q.pending = [] ∨ (script.take q.answers.length).getLast? = some .synchronize) →
      q.machine = (eager (script.take q.answers.length) m₀).2) := by
  obtain ⟨done, current, hcalls, heager, hstanding⟩ := h.calls
  have hdone : script.take q.answers.length = done := by
    have hlength : q.answers.length = done.length := by
      rw [← length_eager done m₀, heager]
    rw [hlength, hcalls, List.append_assoc, List.take_left]
  rw [hdone, heager]
  refine ⟨rfl, fun hhost hend => ?_⟩
  rw [hhost] at hstanding
  cases hstanding with
  | ready _ hsync => exact (settled_of_nil (hend.elim id hsync)).symm

/-- **Whatever the schedule, nothing can be told from running commands when they are submitted.** At
every turn the calls have answered what they answer then. After a synchronize, and whenever the queue
is empty between two calls, so are memory and counters. And the host never waits in vain: every
schedule can be continued to the end of the script. -/
theorem run_eager (m₀ : Machine) (script : List Request) (schedule : List Turn) :
    let q := (start m₀ script).run schedule
    q.answers = (eager (script.take q.answers.length) m₀).1 ∧
    (q.host = .ready →
      (q.pending = [] ∨ (script.take q.answers.length).getLast? = some .synchronize) →
      q.machine = (eager (script.take q.answers.length) m₀).2) ∧
    ∃ more, (q.run more).script = [] ∧ (q.run more).host = .ready ∧ (q.run more).pending = [] ∧
      (q.run more).answers = (eager script m₀).1 ∧ (q.run more).machine = (eager script m₀).2 := by
  intro q
  have h : Follows m₀ script q := (follows_start m₀ script).run schedule
  obtain ⟨more, hpending, hhost, hscript⟩ := h.exists_finished
  have hend := (h.run more).agrees
  rw [(h.run more).length_answers hhost hscript, List.take_length] at hend
  exact ⟨h.agrees.1, h.agrees.2, more, hscript, hhost, hpending, hend.1,
    hend.2 hhost (.inl hpending)⟩

/-- A device with one cell of one word, and its tensor. -/
def single : Machine := { memory := [{ place := .device, words := #[⟨7⟩], reserved := true }] }

def singleTensor : Tensor := ⟨⟨[1], { element := .float32 }⟩, .device, "gpu", 0⟩

/-- Two writes after a fault was injected, a job that panics, and a write when that was reported. -/
def lostScript : List Request :=
  [.injectFault "lost", .write singleTensor rfl #[⟨1⟩], .write singleTensor rfl #[⟨2⟩], .synchronize,
    .enqueue ⟨"odd", fun mem => (mem, .panicked)⟩ fun _ => rfl, .synchronize,
    .write singleTensor rfl #[⟨3⟩], .read singleTensor rfl]

/-- The worker lags two writes behind. When the host has heard of the fault, the first write was
struck by it and the second was skipped, as if they had run when they were submitted. -/
theorem run_eager_lost :
    let q := (start single lostScript).run [.host, .host, .host]
    let q' := q.run [.worker, .host, .worker, .worker, .host]
    (q.machine.device.fault = some "lost" ∧ (eager (lostScript.take 3) single).2.device.fault = none) ∧
      q'.machine = (eager (lostScript.take 4) single).2 ∧ q'.machine.device.skipped = 1 ∧
      q'.answers.getLast? = some (.error (.error (.execution (.backend "gpu"
        "copy host to device: lost")))) := by
  refine ⟨⟨rfl, rfl⟩, ?_, rfl, rfl⟩
  exact (run_eager single lostScript
    [.host, .host, .host, .worker, .host, .worker, .worker, .host]).2.1 rfl (.inr rfl)

end Queue

end HeteroNet
