import HeteroNet.Proofs.Call
import HeteroNet.Queue

/-
The error that the device keeps. Between two synchronizes the jobs of the calls take effect in order
up to the first that does not succeed; that one is reported, with its label and its reason, and
those behind it are skipped. `Succeed` and `FirstFailure` say this of the calls alone, without the
latch and the counters by which the device does it. One lemma a step, then one for all the calls of a
segment, by induction on them.
-/

namespace HeteroNet.Machine

/-- A call on the queue. -/
inductive Call where
  | job (j : Job)
  | fault (text : String)
  | synchronize

def Call.task : Call → Task Unit
  | job j => submit j.command
  | fault text => modify fun m => m.injectFault text
  | synchronize => Machine.synchronize

/-- The machine after some calls, whatever they answered. -/
def after (m : Machine) (calls : List Call) : Machine :=
  calls.foldl (fun m c => (c.task.on m).2) m

/-- How many of the calls submit a job. -/
def jobs : List Call → Nat
  | [] => 0
  | .job _ :: calls => jobs calls + 1
  | _ :: calls => jobs calls

/-- Whether the call answers with an error. -/
def Call.isReport (c : Call) (m : Machine) : Bool := !(c.task.on m).1.isOk

/-- How many of the calls answer with an error. -/
def reports : Machine → List Call → Nat
  | _, [] => 0
  | m, c :: calls => (c.isReport m).toNat + reports (c.task.on m).2 calls

/-- The jobs that are accounted for: those in the counters, and the one whose failure is kept. -/
def accounted (m : Machine) : Nat :=
  m.device.completed + m.device.skipped + m.device.failure.isSome.toNat

/-! ## Segments -/

/-- All jobs succeed, in order, and none meets a fault. They lead from a memory and a pending fault to
others. -/
inductive Succeed : List Call → Memory → Option String → Memory → Option String → Prop
  | nil {mem fault} : Succeed [] mem fault mem fault
  | job {j calls mem mem' mem'' fault} : j.body mem = (mem', .done) →
    Succeed calls mem' none mem'' fault → Succeed (.job j :: calls) mem none mem'' fault
  | fault {text calls mem mem' fault fault'} : Succeed calls mem (some text) mem' fault' →
    Succeed (.fault text :: calls) mem fault mem' fault'

/-- The job does not succeed, for a reason. If it meets a fault, its body does not run. -/
inductive Breaks (j : Job) : Memory → Option String → String → Memory → Prop
  | struck {mem text} : Breaks j mem (some text) text mem
  | failed {mem mem' reason} : j.body mem = (mem', .failed reason) → Breaks j mem none reason mem'
  | panicked {mem mem'} : j.body mem = (mem', .panicked) →
    Breaks j mem none "command panicked" mem'

/-- The job `j`, with `done` before it and `rest` behind it, is the first that does not succeed. -/
structure FirstFailure (calls : List Call) (mem : Memory) (fault : Option String)
    (done : List Call) (j : Job) (rest : List Call) (reason : String) (mem' : Memory) : Prop where
  split : calls = done ++ .job j :: rest
  broken : ∃ mem₁ fault₁, Succeed done mem fault mem₁ fault₁ ∧ Breaks j mem₁ fault₁ reason mem'

/-- The fault that is pending once faults were injected by some calls, and none was met. -/
def lastFault : Option String → List Call → Option String
  | fault, [] => fault
  | _, .fault text :: calls => lastFault (some text) calls
  | fault, _ :: calls => lastFault fault calls

variable {m m₀ : Machine} {calls done rest : List Call} {j : Job} {mem mem' : Memory}
  {fault fault' : Option String} {reason text : String}

/-! ## Steps -/

/-- The body runs and succeeds, or the job breaks. -/
theorem done_or_breaks (j : Job) (mem : Memory) (fault : Option String) :
    (fault = none ∧ ∃ mem', j.body mem = (mem', .done)) ∨
      ∃ reason mem', Breaks j mem fault reason mem' := by
  cases fault with
  | some text => exact .inr ⟨text, mem, .struck⟩
  | none =>
    rcases hbody : j.body mem with ⟨mem', ending⟩
    cases ending with
    | done => exact .inl ⟨rfl, mem', rfl⟩
    | failed reason => exact .inr ⟨reason, mem', .failed hbody⟩
    | panicked => exact .inr ⟨_, mem', .panicked hbody⟩

theorem process_succeeds (hfailure : m.device.failure = none) (hfault : m.device.fault = none)
    (hbody : j.body m.memory = (mem, .done)) : m.process j.command =
      ⟨mem, { m.device with completed := m.device.completed + 1 }⟩ := by
  simp only [process, hfailure, hfault, Job.command, hbody, Ending.result]

theorem process_breaks (hfailure : m.device.failure = none)
    (h : Breaks j m.memory m.device.fault reason mem) : m.process j.command =
      ⟨mem, { m.device with fault := none, failure := some (j.label ++ ": " ++ reason) }⟩ := by
  generalize hmem : m.memory = start at h
  generalize hfault : m.device.fault = pending at h
  cases h with
  | struck => simp only [process, hfailure, hfault, Job.command, hmem]
  | failed hbody =>
    simp only [process, hfailure, hfault, Job.command, hmem, hbody, Ending.result]
  | panicked hbody =>
    simp only [process, hfailure, hfault, Job.command, hmem, hbody, Ending.result]

theorem process_skips (hfailure : m.device.failure = some text) : m.process j.command =
    { m with device := { m.device with skipped := m.device.skipped + 1 } } := by
  simp only [process, hfailure]

theorem synchronize_ok (h : m.device.failure = none) : outcome synchronize m = (.ok (), m) := by
  rw [synchronize, outcome_bind_of_ok (outcome_get m), h]
  rfl

theorem synchronize_reports (h : m.device.failure = some text) :
    outcome synchronize m = (.error (.error (.execution (.backend deviceName text))),
      { m with device := { m.device with failure := none } }) := by
  rw [synchronize, outcome_bind_of_ok (outcome_get m), h]
  rfl

theorem synchronize_clears (m : Machine) : (outcome synchronize m).2.device.failure = none := by
  cases h : m.device.failure with
  | none => rw [synchronize_ok h, h]
  | some text => rw [synchronize_reports h]

/-! ## Segments, call by call -/

theorem after_cons (m : Machine) (c : Call) (calls : List Call) :
    m.after (c :: calls) = (c.task.on m).2.after calls := rfl

theorem after_append (m : Machine) (calls calls' : List Call) :
    m.after (calls ++ calls') = (m.after calls).after calls' :=
  List.foldl_append

/-- As long as jobs succeed nothing is latched, and each of them is counted. -/
theorem after_succeed (h : Succeed calls mem fault mem' fault') :
    ∀ {m : Machine}, m.memory = mem → m.device.fault = fault → m.device.failure = none →
      m.after calls = ⟨mem', { m.device with
        fault := fault', completed := m.device.completed + jobs calls }⟩ := by
  induction h with
  | nil =>
    rintro ⟨mem, device⟩ rfl rfl hfailure
    rfl
  | @job j calls _ _ _ _ hbody _ ih =>
    rintro m rfl hfault hfailure
    have hm := process_succeeds hfailure hfault hbody
    have hcalls := ih (m := m.process j.command) (by rw [hm]) (by rw [hm, hfault])
      (by rw [hm, hfailure])
    change (m.process j.command).after calls = _
    rw [hcalls, hm]
    simp only [jobs, Nat.add_assoc, Nat.add_comm 1]
  | @fault text calls _ _ _ _ _ ih =>
    rintro m rfl - hfailure
    exact ih (m := m.injectFault text) rfl rfl hfailure

/-- Once a failure is latched jobs are counted as skipped, and nothing else becomes of them: a fault
that is pending or injected then stays. -/
theorem after_failed (hsync : .synchronize ∉ calls) (hfailure : m.device.failure = some text) :
    m.after calls = { m with device := { m.device with
      fault := lastFault m.device.fault calls, skipped := m.device.skipped + jobs calls } } := by
  induction calls generalizing m with
  | nil => rfl
  | cons c calls ih =>
    have hrest : Call.synchronize ∉ calls := fun h => hsync (List.mem_cons_of_mem _ h)
    cases c with
    | job j =>
      have hm := process_skips (j := j) hfailure
      have hcalls := ih (m := m.process j.command) hrest (by rw [hm, hfailure])
      change (m.process j.command).after calls = _
      rw [hcalls, hm]
      simp only [lastFault, jobs, Nat.add_assoc, Nat.add_comm 1]
    | fault text => exact ih (m := m.injectFault text) hrest hfailure
    | synchronize => exact absurd List.mem_cons_self hsync

/-- Every job succeeds, or there is a first that does not. -/
theorem succeed_or_fails (hsync : .synchronize ∉ calls) (mem : Memory) (fault : Option String) :
    (∃ mem' fault', Succeed calls mem fault mem' fault') ∨
      ∃ done j rest reason mem', FirstFailure calls mem fault done j rest reason mem' := by
  induction calls generalizing mem fault with
  | nil => exact .inl ⟨mem, fault, .nil⟩
  | cons c calls ih =>
    have hrest : Call.synchronize ∉ calls := fun h => hsync (List.mem_cons_of_mem _ h)
    cases c with
    | synchronize => exact absurd List.mem_cons_self hsync
    | fault text =>
      obtain ⟨mem', fault', h⟩ | ⟨done, j, rest, reason, mem', hsplit, mem₁, fault₁, hdone, hj⟩ :=
        ih hrest mem (some text)
      · exact .inl ⟨mem', fault', .fault h⟩
      · exact .inr ⟨.fault text :: done, j, rest, reason, mem', by rw [hsplit]; rfl,
          mem₁, fault₁, .fault hdone, hj⟩
    | job j =>
      obtain ⟨rfl, mem₁, hbody⟩ | ⟨reason, mem₁, hj⟩ := done_or_breaks j mem fault
      · obtain ⟨mem', fault', h⟩ | ⟨done, j', rest, reason, mem', hsplit, mem₂, fault₂, hdone, hj⟩ :=
          ih hrest mem₁ none
        · exact .inl ⟨mem', fault', .job hbody h⟩
        · exact .inr ⟨.job j :: done, j', rest, reason, mem', by rw [hsplit]; rfl,
            mem₂, fault₂, .job hbody hdone, hj⟩
      · exact .inr ⟨[], j, calls, reason, mem₁, rfl, mem, fault, .nil, hj⟩

/-- What closes a segment in which every job succeeds. -/
theorem synchronize_succeed (hfailure : m.device.failure = none)
    (h : Succeed calls m.memory m.device.fault mem fault) : outcome synchronize (m.after calls) =
      (.ok (), ⟨mem, { m.device with fault, completed := m.device.completed + jobs calls }⟩) := by
  have hcalls := after_succeed h rfl rfl hfailure
  rw [synchronize_ok (by rw [hcalls, hfailure]), hcalls]

/-- What closes a segment in which a job does not succeed. -/
theorem synchronize_fails (hfailure : m.device.failure = none) (hsync : .synchronize ∉ calls)
    (h : FirstFailure calls m.memory m.device.fault done j rest reason mem) :
    outcome synchronize (m.after calls) =
      (.error (.error (.execution (.backend deviceName (j.label ++ ": " ++ reason)))),
        ⟨mem, { m.device with
          fault := lastFault none rest
          completed := m.device.completed + jobs done
          skipped := m.device.skipped + jobs rest }⟩) := by
  obtain ⟨rfl, mem₁, fault₁, hdone, hj⟩ := h
  have hrest : Call.synchronize ∉ rest := fun h => hsync (by simp [h])
  have hm₁ := after_succeed hdone rfl rfl hfailure
  have hm₂ := process_breaks (m := m.after done) (by rw [hm₁, hfailure])
    (by rw [hm₁]; exact hj)
  have hm₃ := after_failed (m := (m.after done).process j.command) hrest (by rw [hm₂])
  rw [after_append]
  change outcome synchronize (((m.after done).process j.command).after rest) = _
  rw [synchronize_reports (by rw [hm₃, hm₂]), hm₃, hm₂, hm₁]
  dsimp only
  rw [hfailure]

/-! ## Jobs accounted for -/

theorem accounted_process (m : Machine) (j : Job) :
    accounted (m.process j.command) = accounted m + 1 := by
  cases hfailure : m.device.failure with
  | some text =>
    rw [process_skips hfailure]
    simp only [accounted]
    omega
  | none =>
    obtain ⟨hfault, mem, hbody⟩ | ⟨reason, mem, hj⟩ := done_or_breaks j m.memory m.device.fault
    · rw [process_succeeds hfailure hfault hbody]
      simp only [accounted]
      omega
    · rw [process_breaks hfailure hj]
      simp only [accounted, hfailure, Option.isSome_some, Option.isSome_none, Bool.toNat_true,
        Bool.toNat_false]

theorem isReport_synchronize (m : Machine) :
    Call.synchronize.isReport m = m.device.failure.isSome := by
  change (!(outcome synchronize m).1.isOk) = _
  cases hfailure : m.device.failure with
  | none =>
    rw [synchronize_ok hfailure]
    rfl
  | some text =>
    rw [synchronize_reports hfailure]
    rfl

/-- To report a failure is to stop keeping it. -/
theorem accounted_synchronize (m : Machine) :
    accounted (outcome synchronize m).2 + m.device.failure.isSome.toNat = accounted m := by
  cases hfailure : m.device.failure with
  | none =>
    rw [synchronize_ok hfailure]
    rfl
  | some text =>
    rw [synchronize_reports hfailure]
    simp [accounted, hfailure]

theorem accounted_call (m : Machine) (c : Call) :
    accounted (c.task.on m).2 + (c.isReport m).toNat = accounted m + jobs [c] := by
  cases c with
  | job j => exact accounted_process m j
  | fault text => rfl
  | synchronize =>
    rw [isReport_synchronize]
    exact accounted_synchronize m

theorem jobs_cons (c : Call) (calls : List Call) : jobs (c :: calls) = jobs [c] + jobs calls := by
  cases c with
  | job j => exact Nat.add_comm _ _
  | fault | synchronize => exact (Nat.zero_add _).symm

/-- No job is lost, and none is counted twice. -/
theorem accounted_after (m : Machine) (calls : List Call) :
    accounted (m.after calls) + reports m calls = accounted m + jobs calls := by
  induction calls generalizing m with
  | nil => rfl
  | cons c calls ih =>
    have hc := accounted_call m c
    have hcalls := ih (c.task.on m).2
    rw [jobs_cons, after_cons, reports]
    omega

/-! ## The law -/

/-- Nothing is latched when a segment begins. -/
theorem failure_before (h : m.device.failure = none) {before : List Call}
    (hbefore : before = [] ∨ before.getLast? = some .synchronize) :
    (m.after before).device.failure = none := by
  obtain rfl | hlast := hbefore
  · exact h
  · obtain ⟨calls, rfl⟩ := List.getLast?_eq_some_iff.1 hlast
    rw [after_append]
    exact synchronize_clears _

/-- **The device keeps the first failure of a segment, and nothing behind it takes effect.** For
every run of calls, and in it every segment with the synchronize that closes it. If all jobs of the
segment succeed, their effects are in memory, each is counted, and there is nothing to report. If
there is a first that does not, what came before it is in memory and counted, its label and its
reason are reported and forgotten, and those behind it are skipped; the faults injected behind it
are not met, and the last of them is still pending. One of the two is the case. And in the whole run
every job is counted once, or is one of those whose failure was reported, or is kept. -/
theorem sticky_failure (m₀ : Machine) (hstart : m₀.device.failure = none)
    (before segment : List Call) (hbefore : before = [] ∨ before.getLast? = some .synchronize)
    (hsegment : .synchronize ∉ segment) :
    let m := m₀.after before
    let closing := synchronize.on (m.after segment)
    m.device.failure = none ∧ closing.2.device.failure = none ∧
    (∀ mem fault, Succeed segment m.memory m.device.fault mem fault → closing =
      (.ok (), ⟨mem, { m.device with
        fault, completed := m.device.completed + jobs segment }⟩)) ∧
    (∀ done j rest reason mem,
      FirstFailure segment m.memory m.device.fault done j rest reason mem → closing =
      (.error (.error (.execution (.backend deviceName (j.label ++ ": " ++ reason)))),
        ⟨mem, { m.device with
          fault := lastFault none rest
          completed := m.device.completed + jobs done
          skipped := m.device.skipped + jobs rest }⟩)) ∧
    (closing.1 = .ok () ↔ ∃ mem fault, Succeed segment m.memory m.device.fault mem fault) ∧
    (closing.1 ≠ .ok () ↔ ∃ done j rest reason mem,
      FirstFailure segment m.memory m.device.fault done j rest reason mem) ∧
    ∀ calls, accounted (m₀.after calls) + reports m₀ calls =
      m₀.device.completed + m₀.device.skipped + jobs calls := by
  intro m closing
  have hm : m.device.failure = none := failure_before hstart hbefore
  have hsucceed : ∀ mem fault, Succeed segment m.memory m.device.fault mem fault → _ :=
    fun _ _ h => synchronize_succeed hm h
  have hfails : ∀ done j rest reason mem,
      FirstFailure segment m.memory m.device.fault done j rest reason mem → _ :=
    fun _ _ _ _ _ h => synchronize_fails hm hsegment h
  have hone := succeed_or_fails hsegment m.memory m.device.fault
  refine ⟨hm, synchronize_clears _, hsucceed, hfails, ⟨fun hok => ?_, ?_⟩, ⟨fun herror => ?_, ?_⟩,
    fun calls => ?_⟩
  · refine hone.resolve_right ?_
    rintro ⟨done, j, rest, reason, mem, h⟩
    cases (congrArg Prod.fst (hfails done j rest reason mem h)).symm.trans hok
  · rintro ⟨mem, fault, h⟩
    exact congrArg Prod.fst (hsucceed mem fault h)
  · refine hone.resolve_left ?_
    rintro ⟨mem, fault, h⟩
    exact herror (congrArg Prod.fst (hsucceed mem fault h))
  · rintro ⟨done, j, rest, reason, mem, h⟩ hok
    cases (congrArg Prod.fst (hfails done j rest reason mem h)).symm.trans hok
  · rw [accounted_after, accounted, hstart]
    rfl

/-- A job that writes one word into the first cell. -/
def writing (label : String) (w : Word) : Job := ⟨label, fun mem => (mem.store 0 #[w], .done)⟩

/-- The panic is reported and the write behind it is skipped; the fault injected while the panic was
latched strikes the first job of the next segment. -/
theorem sticky_failure_late :
    let m₀ : Machine := { memory := [{ place := .device, words := #[⟨0⟩], reserved := true }] }
    let first : List Call := [.job (writing "a" ⟨1⟩), .job ⟨"b", fun mem => (mem, .panicked)⟩,
      .fault "late", .job (writing "c" ⟨2⟩), .synchronize]
    let m := m₀.after first
    m.memory.load 0 = .ok #[⟨1⟩] ∧ m.device.completed = 1 ∧ m.device.skipped = 1 ∧
    reports m₀ first = 1 ∧ synchronize.on (m.after [.job (writing "d" ⟨3⟩)]) =
      (.error (.error (.execution (.backend "gpu" "d: late"))),
        ⟨m.memory, { m.device with fault := none }⟩) := by
  intro m₀ first m
  have hstruck : FirstFailure [.job (writing "d" ⟨3⟩)] m.memory (some "late") []
      (writing "d" ⟨3⟩) [] "late" m.memory := ⟨rfl, m.memory, some "late", .nil, .struck⟩
  exact ⟨rfl, rfl, rfl, rfl, (sticky_failure m₀ rfl first [.job (writing "d" ⟨3⟩)] (.inr rfl)
    (by simp)).2.2.2.1 [] _ [] _ _ hstruck⟩

end HeteroNet.Machine
