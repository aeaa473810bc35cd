import HeteroNet.Proofs.Plan.Footprint
import HeteroNet.Proofs.Plan.Refusals
import HeteroNet.Proofs.World.Reached
import Mathlib.Logic.Relation

/-
Who holds plans, and what that takes of the device. A plan is held by its caller and by the sessions
on it; it can get holders as long as it has some. Whatever happens, the device has given away what
the builders of the plans that are held have counted, and no more (`Balanced.allocated_held`).

So a compilation that returns an error leaves the device with the memory it had. One that succeeds
takes the footprint of the new plan (`compile_footprint`), and the device has it back once the plan
and all sessions on it are dropped. A compilation that breaks off, because an operand has more elements
than a buffer can have words, leaves the device charged for it (`compile_footprint_kept`).
-/

namespace HeteroNet

open Model

/-- A plan, and how many hold it. -/
structure Holding where
  entry : Entry
  holders : Nat

namespace Holding

/-- What the plan takes of the device, if somebody holds it. -/
def bytes (h : Holding) : Nat := if h.holders = 0 then 0 else h.entry.plan.deviceBytes

/-- The cells of the plan count its holders. -/
structure Counted (h : Holding) (mem : Memory) : Prop where
  held : ∀ t ∈ tensorsOf h.entry.plan.builders, (mem.cell t.cell).holders = h.holders
  sited : ∀ t ∈ tensorsOf h.entry.plan.builders, (mem.cell t.cell).place = t.place
  bytes : ((tensorsOf h.entry.plan.builders).map Tensor.deviceBytes).sum
    = h.entry.plan.deviceBytes

theorem Counted.congr {h : Holding} {mem mem' : Memory} (hc : h.Counted mem)
    (hsame : ∀ t ∈ tensorsOf h.entry.plan.builders,
      (mem'.cell t.cell).holders = (mem.cell t.cell).holders ∧
        (mem'.cell t.cell).place = (mem.cell t.cell).place) : h.Counted mem' where
  held t ht := (hsame t ht).1.trans (hc.held t ht)
  sited t ht := (hsame t ht).2.trans (hc.sited t ht)
  bytes := hc.bytes

end Holding

/-- A platform, and who holds the plans that were compiled on it. -/
structure Ledger where
  platform : Platform
  holdings : List Holding

namespace Ledger

variable {settings : Settings} {l l' : Ledger} {e : Entry} {h : Holding} {m : Machine}
  {s : Platform} {before behind : List Holding} {n k : Nat}

def start (settings : Settings) : Ledger := ⟨settings.platform, []⟩

/-- The bytes that the device has given away. -/
def allocated (l : Ledger) : UInt64 := l.platform.machine.device.allocated

/-- The plans that somebody holds. -/
def held (l : Ledger) : List Entry :=
  (l.holdings.filter fun h => h.holders ≠ 0).map Holding.entry

/-- The world in which it does not matter who holds a plan. -/
def world (l : Ledger) : World := ⟨l.platform, l.holdings.map Holding.entry⟩

def onMachine (l : Ledger) (m : Machine) : Ledger :=
  { l with platform := { l.platform with machine := m } }

/-- A compilation on a platform, and what it answers. The elements of every operand can be counted by
a size. -/
structure Compilation (before : Platform) (calls : List Call) (policy : Policy)
    (answer : Except Failure Plan) (behind : Platform) : Prop where
  countable : ∀ o ∈ (ofCalls calls).operands, o.shape.elements < Size.modulus
  run : outcome (compile (ofCalls calls) policy) before = (answer, behind)

/-- What can happen next, if no call breaks off. Who makes a session on a plan holds it from then on,
and to drop a session, or the plan, is to let go of it. -/
inductive Step : Ledger → Ledger → Prop
  | compiled {l : Ledger} {calls : List Call} {policy : Policy} {plan : Plan} {s : Platform} :
    Compilation l.platform calls policy (.ok plan) s →
    Step l ⟨s, l.holdings ++ [⟨⟨ofCalls calls, policy, plan⟩, 1⟩]⟩
  | refused {l : Ledger} {calls : List Call} {policy : Policy} {err : Error} {s : Platform} :
    Compilation l.platform calls policy (.error (.error err)) s → Step l ⟨s, l.holdings⟩
  | ran {l : Ledger} {h : Holding} {s s' : Session} {m : Machine} {answer : Except Failure Unit} :
    h ∈ l.holdings → Session.Made h.entry.plan s →
    outcome Session.run (s, l.platform.machine) = (answer, (s', m)) → Step l (l.onMachine m)
  | fault {l : Ledger} (text : String) :
    Step l (l.onMachine (l.platform.machine.injectFault text))
  | retained {l : Ledger} {before behind : List Holding} {e : Entry} {n : Nat} :
    l.holdings = before ++ ⟨e, n + 1⟩ :: behind →
    Step l { l.onMachine (e.plan.retain l.platform.machine) with
      holdings := before ++ ⟨e, n + 2⟩ :: behind }
  | released {l : Ledger} {before behind : List Holding} {e : Entry} {n : Nat} :
    l.holdings = before ++ ⟨e, n + 1⟩ :: behind →
    Step l { l.onMachine (e.plan.release l.platform.machine) with
      holdings := before ++ ⟨e, n⟩ :: behind }

/-- What can happen in any number of steps. -/
def Leads : Ledger → Ledger → Prop := Relation.ReflTransGen Step

/-! ## The invariant -/

/-- What is true in every ledger. -/
structure Balanced (l : Ledger) : Prop where
  sound : World.Sound l.world
  counted : ∀ h ∈ l.holdings, h.Counted l.platform.machine.memory
  allocated : l.allocated = UInt64.ofNat (l.holdings.map Holding.bytes).sum

theorem Balanced.clean (hl : Balanced l) : l.platform.Clean := hl.sound.clean

theorem Balanced.usable (hl : Balanced l) (hh : h ∈ l.holdings) :
    World.Usable h.entry l.platform.machine.memory :=
  hl.sound.usable h.entry (List.mem_map_of_mem hh)

/-- What is given away is what the plans take that somebody holds. -/
theorem Balanced.allocated_held (hl : Balanced l) :
    l.allocated = UInt64.ofNat (l.held.map fun e => e.plan.deviceBytes).sum := by
  rw [hl.allocated, held]
  refine congrArg UInt64.ofNat ?_
  generalize l.holdings = holdings
  induction holdings with
  | nil => rfl
  | cons h holdings ih =>
    by_cases hh : h.holders = 0
    · simp [Holding.bytes, hh, ih]
    · simp [Holding.bytes, hh, ih]

/-! ## Compilations -/

/-- What a compilation leaves, whatever the model. -/
theorem compile_leaves (hs : s.Clean) (calls : List Call) (policy : Policy) :
    Ends (outcome (compile (ofCalls calls) policy) s)
      (fun p s' => (ofCalls calls).Built ∧ p.Measured ∧
        ∃ ops, Compiles (ofCalls calls) policy p.model ops ∧
          Finished s.machine p.model ops p s'.machine)
      (fun e s' => s'.Clean ∧ Intact s.machine s'.machine ∧
        (e ≠ .oversized → s'.machine.device.allocated = s.machine.device.allocated)) := by
  rcases built_or_lowered calls with hbuilt | hlowered
  · refine ((compile_ends policy hbuilt hs).and (compile_measured policy hbuilt hs)).mono
      (fun p s' hp => ?_) fun e s' he => he.1.2
    obtain ⟨⟨-, hfinished⟩, hmeasured⟩ := hp
    exact ⟨hbuilt, hmeasured, hfinished⟩
  · rw [compile_eq]
    refine Ends.bind ((accept_lowered hs hlowered).mono (fun _ _ hfalse => hfalse.elim)
      fun e s' he => ?_)
    obtain ⟨-, hclean, hmachine⟩ := he
    rw [hmachine]
    exact ⟨hclean, (Laid.nil s.machine).toIntact, fun _ => rfl⟩

/-- The cells there were before are as they were. -/
theorem Balanced.intact (hl : Balanced l) (hm : Intact l.platform.machine m) :
    ∀ h ∈ l.holdings, h.Counted m.memory := by
  intro h hh
  refine (hl.counted h hh).congr fun t ht => ?_
  rw [hm.old _ ((hl.usable hh).bound ht)]
  exact ⟨rfl, rfl⟩

theorem Balanced.compiled (hl : Balanced l) {calls : List Call} {policy : Policy} {plan : Plan}
    (hrun : outcome (compile (ofCalls calls) policy) l.platform = (.ok plan, s)) :
    Balanced ⟨s, l.holdings ++ [⟨⟨ofCalls calls, policy, plan⟩, 1⟩]⟩ := by
  have hends := compile_leaves hl.clean calls policy
  rw [hrun] at hends
  obtain ⟨hbuilt, hmeasured, ops, -, hfinished⟩ := hends
  refine ⟨?_, fun h hh => ?_, ?_⟩
  · have hsound := hl.sound.compiled hbuilt hrun
    simpa only [world, List.map_append, List.map_singleton] using hsound
  · rcases List.mem_append.1 hh with hh | hh
    · exact hl.intact hfinished.intact h hh
    · obtain rfl := List.mem_singleton.1 hh
      exact ⟨hfinished.lent.held, hfinished.lent.sited, hmeasured.deviceBytes⟩
  · have hnew := hfinished.allocated
    rw [hmeasured.deviceBytes] at hnew
    rw [List.map_append, List.sum_append, UInt64.ofNat_add, ← hl.allocated]
    exact hnew

theorem Balanced.refused (hl : Balanced l) {calls : List Call} {policy : Policy} {err : Error}
    (hrun : outcome (compile (ofCalls calls) policy) l.platform = (.error (.error err), s)) :
    Balanced ⟨s, l.holdings⟩ := by
  have hends := compile_leaves hl.clean calls policy
  rw [hrun] at hends
  obtain ⟨hclean, hintact, hallocated⟩ := hends
  exact ⟨hl.sound.intact hclean hintact, hl.intact hintact,
    (hallocated (Failure.error_ne_oversized err)).trans hl.allocated⟩

/-! ## Runs and faults -/

theorem Balanced.ran (hl : Balanced l) {s s' : Session} {answer : Except Failure Unit}
    (hh : h ∈ l.holdings) (hs : Session.Made h.entry.plan s)
    (hrun : outcome Session.run (s, l.platform.machine) = (answer, (s', m))) :
    Balanced (l.onMachine m) := by
  have hmem : h.entry ∈ l.world.entries := List.mem_map_of_mem hh
  obtain ⟨ops, hcompiled, hk⟩ := hl.usable hh
  obtain ⟨hrewritten, -, hallocated⟩ := World.run_leaves hcompiled hk hs hl.clean.failure hrun
  have hcounted : ∀ h' ∈ l.holdings, h'.Counted m.memory := by
    intro h' hh'
    exact (hl.counted h' hh').congr fun t _ =>
      ⟨hrewritten.holders t.cell, hrewritten.place t.cell⟩
  exact ⟨hl.sound.ran hmem hs hrun, hcounted, hallocated.trans hl.allocated⟩

theorem Balanced.fault (hl : Balanced l) (text : String) :
    Balanced (l.onMachine (l.platform.machine.injectFault text)) :=
  ⟨(World.Step.fault (w := l.world) text).sound hl.sound, hl.counted, hl.allocated⟩

/-! ## Holders -/

/-- Changing the cells of tensors one after another, each cell once. -/
theorem cell_foldl {f : Cell → Cell} {g : Machine → Tensor → Machine}
    (hg : ∀ m t, (g m t).memory = m.memory.modify t.cell f) :
    ∀ {ts : List Tensor} {m : Machine}, (ts.map Tensor.cell).Nodup →
      (∀ t ∈ ts, t.cell < m.memory.length →
        (ts.foldl g m).memory.cell t.cell = f (m.memory.cell t.cell)) ∧
      ∀ c, (∀ t ∈ ts, t.cell ≠ c) → (ts.foldl g m).memory.cell c = m.memory.cell c
  | [], _, _ => ⟨fun _ ht => (by cases ht), fun _ _ => rfl⟩
  | t :: ts, m, hn => by
    obtain ⟨hcell, hn⟩ := List.nodup_cons.1 hn
    obtain ⟨hin, hout⟩ := cell_foldl hg (m := g m t) hn
    rw [List.foldl_cons]
    refine ⟨fun u hu hbound => ?_, fun c hc => ?_⟩
    · rcases List.mem_cons.1 hu with rfl | hu
      · have hothers : ∀ u' ∈ ts, u'.cell ≠ u.cell := by
          intro u' hu' he
          exact hcell (he ▸ List.mem_map_of_mem hu')
        rw [hout _ hothers, hg, Memory.cell_modify_self hbound]
      · have hne : t.cell ≠ u.cell := by
          intro he
          exact hcell (he ▸ List.mem_map_of_mem hu)
        rw [hin u hu (by rwa [hg, List.length_modify]), hg, Memory.cell_modify_other hne]
    · rw [hout c fun u hu => hc u (List.mem_cons_of_mem _ hu), hg,
        Memory.cell_modify_other (hc t List.mem_cons_self)]

/-- No other plan has a cell of this one. -/
theorem Balanced.apart (hl : Balanced l) (hat : l.holdings = before ++ h :: behind) :
    ∀ h' ∈ before ++ behind, World.Apart h.entry h'.entry := by
  have hpairwise := hl.sound.apart
  rw [world, hat, List.map_append, List.map_cons,
    List.pairwise_middle fun {x y} hxy => Std.Symm.symm x y hxy, ← List.map_append,
    List.pairwise_cons] at hpairwise
  exact fun h' hh' => hpairwise.1 _ (List.mem_map_of_mem hh')

/-- The tensors of a plan, in the order in which they are let go, have cells of their own. -/
theorem Balanced.nodup (hl : Balanced l) (hh : h ∈ l.holdings) :
    (h.entry.plan.allTensors.map Tensor.cell).Nodup := by
  obtain ⟨ops, hcompiled, -⟩ := hl.usable hh
  exact ((tensorsOf_perm h.entry.plan.builders).map Tensor.cell).nodup_iff.1 hcompiled.made.apart

/-- One plan gets or loses a holder, and so do the cells of its tensors. -/
theorem Balanced.reheld (hl : Balanced l) (hat : l.holdings = before ++ ⟨e, n⟩ :: behind)
    {g : Machine → Tensor → Machine} {f : Cell → Cell} (hsame : ∀ m t, World.Same m (g m t))
    (hg : ∀ m t, (g m t).memory = m.memory.modify t.cell f)
    (hf : ∀ c, c.holders = n → (f c).holders = k) (hplace : ∀ c, (f c).place = c.place)
    (hm : e.plan.allTensors.foldl g l.platform.machine = m)
    (hallocated : m.device.allocated + UInt64.ofNat (Holding.bytes ⟨e, n⟩)
      = l.allocated + UInt64.ofNat (Holding.bytes ⟨e, k⟩)) :
    Balanced { l.onMachine m with holdings := before ++ ⟨e, k⟩ :: behind } := by
  have hmem : ⟨e, n⟩ ∈ l.holdings := by simp [hat]
  have hperm := tensorsOf_perm e.plan.builders
  obtain ⟨hin, hout⟩ := cell_foldl hg (m := l.platform.machine) (hl.nodup hmem)
  rw [hm] at hin hout
  refine ⟨?_, fun h' hh' => ?_, ?_⟩
  · have hsound := hl.sound.same (hm ▸ World.same_foldl hsame)
    have hentries : l.world.entries = (before ++ ⟨e, k⟩ :: behind).map Holding.entry := by
      simp [world, hat]
    rwa [World.onMachine, hentries] at hsound
  · -- The cells of this plan change, and no cell of another one.
    rcases List.mem_cons.1 (List.perm_middle.subset hh') with rfl | hh'
    · have hcounted := hl.counted _ hmem
      have hcell : ∀ t ∈ tensorsOf e.plan.builders, m.memory.cell t.cell
          = f (l.platform.machine.memory.cell t.cell) := by
        intro t ht
        exact hin t (hperm.subset ht) ((hl.usable hmem).bound ht)
      refine ⟨fun t ht => ?_, fun t ht => ?_, hcounted.bytes⟩
      · exact (congrArg Cell.holders (hcell t ht)).trans (hf _ (hcounted.held t ht))
      · exact ((congrArg Cell.place (hcell t ht)).trans (hplace _)).trans (hcounted.sited t ht)
    · have hold : h' ∈ l.holdings := hat ▸ List.perm_middle.symm.subset (List.mem_cons_of_mem _ hh')
      refine (hl.counted h' hold).congr fun t ht => ?_
      have hcell := hout t.cell fun u hu => hl.apart hat h' hh' u (hperm.symm.subset hu) t ht
      exact ⟨congrArg Cell.holders hcell, congrArg Cell.place hcell⟩
  · have hall := hl.allocated
    rw [hat] at hall
    simp only [List.map_append, List.map_cons, List.sum_append, List.sum_cons,
      UInt64.ofNat_add] at hall ⊢
    change m.device.allocated = _
    grind

/-- Who comes to hold tensors takes no memory for it. -/
theorem allocated_retainAll : ∀ (ts : List Tensor) (m : Machine),
    (ts.foldl (fun m t => t.retain m) m).device.allocated = m.device.allocated
  | [], _ => rfl
  | t :: ts, m => allocated_retainAll ts (t.retain m)

theorem Balanced.retained (hl : Balanced l) (hat : l.holdings = before ++ ⟨e, n + 1⟩ :: behind) :
    Balanced { l.onMachine (e.plan.retain l.platform.machine) with
      holdings := before ++ ⟨e, n + 2⟩ :: behind } := by
  refine hl.reheld hat World.same_retain (f := fun c => { c with holders := c.holders + 1 })
    (fun _ _ => rfl) (fun c hc => congrArg (· + 1) hc) (fun _ => rfl) rfl ?_
  exact congrArg (· + UInt64.ofNat e.plan.deviceBytes) (allocated_retainAll _ _)

/-- What letting go of a plan gives back. -/
theorem Balanced.freed (hl : Balanced l) (hh : ⟨e, n + 1⟩ ∈ l.holdings) :
    (e.plan.allTensors.map fun t => (l.platform.machine.memory.cell t.cell).freed).sum
      = if n = 0 then e.plan.deviceBytes else 0 := by
  have hcounted := hl.counted _ hh
  obtain ⟨ops, -, hk⟩ := hl.usable hh
  have hcell : ∀ t ∈ e.plan.allTensors, (l.platform.machine.memory.cell t.cell).freed
      = if n = 0 then t.deviceBytes else 0 := by
    intro t ht
    have ht := (tensorsOf_perm e.plan.builders).symm.subset ht
    have hheld : (l.platform.machine.memory.cell t.cell).holders = n + 1 := hcounted.held t ht
    by_cases hn : n = 0
    · rw [if_pos hn, Cell.freed_last (by omega), (hk.ready t ht).charge (hcounted.sited t ht),
        if_neg (by omega)]
    · rw [if_neg hn, Cell.freed_other (by omega)]
  rw [List.map_congr_left hcell]
  by_cases hn : n = 0
  · simp only [if_pos hn]
    rw [← hcounted.bytes]
    exact ((tensorsOf_perm e.plan.builders).map _).symm.sum_eq
  · simp [hn]

theorem Balanced.released (hl : Balanced l) (hat : l.holdings = before ++ ⟨e, n + 1⟩ :: behind) :
    Balanced { l.onMachine (e.plan.release l.platform.machine) with
      holdings := before ++ ⟨e, n⟩ :: behind } := by
  have hmem : ⟨e, n + 1⟩ ∈ l.holdings := by simp [hat]
  refine hl.reheld hat World.same_release (f := fun c => { c with holders := c.holders - 1 })
    (fun _ _ => rfl) (fun c hc => by simp [hc]) (fun _ => rfl) rfl ?_
  rw [Plan.release, allocated_releaseAll (hl.nodup hmem), hl.freed hmem]
  change l.allocated - _ + _ = _
  by_cases hn : n = 0
  · simp [Holding.bytes, hn]
  · simp [Holding.bytes, hn]

/-! ## All ledgers -/

theorem balanced_start (settings : Settings) : Balanced (start settings) where
  sound := World.sound_start settings
  counted h hh := by cases hh
  allocated := rfl

/-- Whatever happens next keeps a ledger balanced. -/
theorem Step.balanced (h : Step l l') (hl : Balanced l) : Balanced l' := by
  cases h with
  | compiled h => exact hl.compiled h.run
  | refused h => exact hl.refused h.run
  | ran hh hs hrun => exact hl.ran hh hs hrun
  | fault text => exact hl.fault text
  | retained hat => exact hl.retained hat
  | released hat => exact hl.released hat

theorem Leads.balanced (h : Leads l l') (hl : Balanced l) : Balanced l' := by
  induction h with
  | refl => exact hl
  | tail _ hstep ih => exact hstep.balanced ih

/-- **What a compilation takes of the device, and that it gives it back.** On the default backends,
whatever happened before, a plan has one builder for each backend on which its lowered model reads
or writes data, and what each builder has made and counted is known. The inputs that are flattened
are those of rank 4 that the caller's fully connected layers read. The device gives away exactly
what its builder counts; and whatever happens then, once the plan and all sessions on it are dropped
and the same plans are held as before, it has that back. A compilation that returns an error takes
nothing. -/
theorem compile_footprint (hl : Leads (start settings) l) (calls : List Call) (policy : Policy) :
    (∀ p s, Compilation l.platform calls policy (.ok p) s →
      p.backends.Pairwise (· < ·) ∧ (∀ id, id ∈ p.backends ↔ p.model.dataOn id ≠ []) ∧
      (∀ b ∈ p.builders, Footprint p.model b) ∧
      (∀ id, p.model.flattenedOn id = if policy.backendFor .fullyConnected = id then
        (ofCalls calls).operations.filterMap (·.flattened (ofCalls calls).operands) else []) ∧
      s.machine.device.allocated = l.allocated + UInt64.ofNat p.deviceBytes ∧
      ∀ l', Leads ⟨s, l.holdings ++ [⟨⟨ofCalls calls, policy, p⟩, 1⟩]⟩ l' → l'.held = l.held →
        l'.allocated = l.allocated) ∧
    ∀ err s, Compilation l.platform calls policy (.error (.error err)) s →
      s.machine.device.allocated = l.allocated := by
  have hbalanced := hl.balanced (balanced_start settings)
  have hends := compile_leaves hbalanced.clean calls policy
  refine ⟨fun p s hcompiled => ?_, fun err s hrefused => ?_⟩
  · rw [hcompiled.run] at hends
    obtain ⟨hbuilt, hmeasured, ops, hcompiles, hfinished⟩ := hends
    refine ⟨hmeasured.names, hmeasured.backends, hmeasured.footprint, hcompiles.flattenedOn hbuilt,
      ?_, fun l' hl' hheld => ?_⟩
    · have hnew := hfinished.allocated
      rwa [hmeasured.deviceBytes] at hnew
    · have hbalanced' := hl'.balanced (hbalanced.compiled hcompiled.run)
      rw [hbalanced'.allocated_held, hheld, hbalanced.allocated_held]
  · rw [hrefused.run] at hends
    exact hends.2.2 (Failure.error_ne_oversized err)

/-- A fully connected layer that has to flatten its input, and a copy of what it computes. -/
def denseCalls : List Call :=
  let float (shape : Shape) : Call := .addOperand shape { element := .float32 }
  [float [1, 1, 1, 2], float [1, 2], float [1], .addOperand [] { element := .int32 },
    float [1, 1], float [1, 1], .setValue 1 [0, 0, 128, 63, 0, 0, 0, 64], .setValue 2 [0, 0, 0, 0],
    .setValue 3 [0, 0, 0, 0], .addOperation ⟨[0, 1, 2], [4], .fullyConnected 3⟩,
    .addOperation ⟨[4], [5], .nop⟩, .addInput 0, .addOutput 5]

theorem denseCalls_countable :
    ∀ o ∈ (ofCalls denseCalls).operands, o.shape.elements < Size.modulus := by decide +kernel

/-- The layer on the device, the copy on the host. -/
def densePolicy : Policy := ({} : Policy).withKind .nop "cpu"

/-- A session is made on a new plan, and then both are dropped. -/
theorem leads_dropped (s : Platform) (holdings : List Holding) (e : Entry) :
    Leads ⟨s, holdings ++ [⟨e, 1⟩]⟩ ⟨{ s with
      machine := e.plan.release (e.plan.release (e.plan.retain s.machine)) },
      holdings ++ [⟨e, 0⟩]⟩ := by
  have hretained : Leads ⟨s, holdings ++ [⟨e, 1⟩]⟩
      ⟨{ s with machine := e.plan.retain s.machine }, holdings ++ [⟨e, 2⟩]⟩ :=
    .single (.retained (n := 0) rfl)
  exact (hretained.tail (.released (n := 1) rfl)).tail (.released (n := 0) rfl)

/-- The layer has four operands on the device, 24 bytes, and a scratch tensor of eight. They are
given back when the plan and a session on it are dropped. With 30 bytes the scratch tensor does not
fit, and what the others took is given back at once. -/
theorem compile_footprint_dense :
    (∃ p s, outcome (compile (ofCalls denseCalls) densePolicy) (start {}).platform = (.ok p, s) ∧
      p.builders.map (fun b => (b.backend, b.stats.tensors, b.stats.scratch, b.stats.bytes))
        = [("cpu", 2, 0, 8), ("gpu", 4, 1, 32)] ∧
      (∀ b ∈ p.builders, Footprint p.model b) ∧ s.machine.device.allocated = 32 ∧
      (p.release (p.release (p.retain s.machine))).device.allocated = 0) ∧
    ∃ s, outcome (compile (ofCalls denseCalls) densePolicy)
        (start { memoryLimit := some 30 }).platform
      = (.error (.error (.allocation (.outOfMemory 8 6))), s) ∧ s.machine.device.allocated = 0 := by
  constructor
  · have hstats : (fun p : Plan => (p.builders.map fun b =>
          (b.backend, b.stats.tensors, b.stats.scratch, b.stats.bytes), p.deviceBytes)) <$>
        (outcome (compile (ofCalls denseCalls) densePolicy) (start {}).platform).1
          = .ok ([("cpu", 2, 0, 8), ("gpu", 4, 1, 32)], 32) := by decide +kernel
    obtain ⟨p, hp, hstats⟩ := map_eq_ok.1 hstats
    obtain ⟨hstats, hbytes⟩ := Prod.mk.inj hstats
    have hrun := outcome_eq hp
    have hstart : Leads (start {}) (start {}) := .refl
    obtain ⟨-, -, hfootprint, -, hallocated, hback⟩ :=
      (compile_footprint hstart denseCalls densePolicy).1 p _ ⟨denseCalls_countable, hrun⟩
    rw [hbytes] at hallocated
    refine ⟨p, _, hrun, hstats, hfootprint, hallocated, ?_⟩
    exact hback _ (leads_dropped _ _ ⟨ofCalls denseCalls, densePolicy, p⟩) (by simp [held])
  · have hfails : (outcome (compile (ofCalls denseCalls) densePolicy)
        (start { memoryLimit := some 30 }).platform).1
          = .error (.error (.allocation (.outOfMemory 8 6))) := by decide +kernel
    have hrun := outcome_eq hfails
    have hstart : Leads (start { memoryLimit := some 30 }) (start { memoryLimit := some 30 }) := .refl
    exact ⟨_, hrun,
      (compile_footprint hstart denseCalls densePolicy).2 _ _ ⟨denseCalls_countable, hrun⟩⟩

/-- A copy on the device of a row of as many words as a size counts in bytes, and one word more. -/
def vastCalls : List Call :=
  let row : Call := .addOperand [1, 0x4000000000000001] { element := .float32 }
  [row, row, .addOperation ⟨[0], [1], .nop⟩, .addInput 0, .addOutput 1]

/-- **A compilation that fails can leave the device charged**, and for less than what was asked: the
bytes of so many words wrap around to four, which 44 bytes allow for, and the call breaks off where it
makes the buffer. -/
theorem compile_footprint_kept :
    (∀ o ∈ (ofCalls vastCalls).operands, o.shape.elements < Size.modulus) ∧
      ∃ s, outcome (compile (ofCalls vastCalls) {}) (start { memoryLimit := some 44 }).platform
          = (.error .oversized, s) ∧
        (start { memoryLimit := some 44 }).allocated = 0 ∧ s.machine.device.allocated = 4 := by
  refine ⟨by decide +kernel, _, outcome_eq (by decide +kernel), rfl, by decide +kernel⟩

end Ledger

end HeteroNet
