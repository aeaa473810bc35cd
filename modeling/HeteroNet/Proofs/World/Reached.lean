import HeteroNet.Proofs.Session.Run
import HeteroNet.Settings
import Mathlib.Data.List.Pairwise

/-
Everything that can happen to a platform: models are compiled, accepted or not, sessions on the
plans run, in any order and any number of times, faults are injected between the calls, and plans
get and lose holders. However all that went, every plan is as a run expects it, no two plans share a
cell, and the device has no failure left to report (`Reached.sound`).
-/

namespace HeteroNet

open Model

/-- A plan, with the model and the policy it was compiled for. -/
structure Entry where
  model : Model
  policy : Policy
  plan : Plan

/-- A platform and the plans that were compiled on it. -/
structure World where
  platform : Platform
  entries : List Entry

namespace World

/-- The world in which the machine is another one. -/
def onMachine (w : World) (m : Machine) : World :=
  { w with platform := { w.platform with machine := m } }

/-- What can happen next. -/
inductive Step : World → World → Prop
  | compiled {w : World} {model : Model} {policy : Policy} {plan : Plan} {s : Platform} :
    model.Built → outcome (compile model policy) w.platform = (.ok plan, s) →
    Step w ⟨s, w.entries ++ [⟨model, policy, plan⟩]⟩
  | refused {w : World} {model : Model} {policy : Policy} {e : Failure} {s : Platform} :
    model.Built → outcome (compile model policy) w.platform = (.error e, s) →
    Step w ⟨s, w.entries⟩
  | ran {w : World} {e : Entry} {s s' : Session} {m : Machine} {answer : Except Failure Unit} :
    e ∈ w.entries → Session.Made e.plan s →
    outcome Session.run (s, w.platform.machine) = (answer, (s', m)) → Step w (w.onMachine m)
  | fault {w : World} (text : String) :
    Step w (w.onMachine (w.platform.machine.injectFault text))
  | retained {w : World} {e : Entry} : e ∈ w.entries →
    Step w (w.onMachine (e.plan.retain w.platform.machine))
  | released {w : World} {e : Entry} : e ∈ w.entries →
    Step w (w.onMachine (e.plan.release w.platform.machine))

/-- The worlds that the settings lead to. -/
inductive Reached (settings : Settings) : World → Prop
  | start : Reached settings ⟨settings.platform, []⟩
  | step {w w' : World} : Reached settings w → Step w w' → Reached settings w'

/-- The world after a run of a session, however it ended. -/
theorem Reached.ran {settings : Settings} {w : World} {e : Entry} {s : Session}
    (h : Reached settings w) (he : e ∈ w.entries) (hs : Session.Made e.plan s) :
    Reached settings (w.onMachine (outcome Session.run (s, w.platform.machine)).2.2) :=
  .step h (.ran he hs rfl)

/-! ## The invariant -/

/-- The plan is as a run expects it. -/
def Usable (e : Entry) (mem : Memory) : Prop :=
  ∃ ops, e.plan.Compiled e.model e.policy ops ∧ e.plan.Kept ops mem

/-- The plans share no cell. -/
def Apart (e e' : Entry) : Prop :=
  ∀ t ∈ tensorsOf e.plan.builders, ∀ t' ∈ tensorsOf e'.plan.builders, t.cell ≠ t'.cell

/-- What is true in every world. -/
structure Sound (w : World) : Prop where
  clean : w.platform.Clean
  whole : ∀ c, (w.platform.machine.memory.cell c).damaged = false
  usable : ∀ e ∈ w.entries, Usable e w.platform.machine.memory
  apart : w.entries.Pairwise Apart

instance : Std.Symm Apart where
  symm _ _ h t ht t' ht' hc := h t' ht' t ht hc.symm

variable {w w' : World} {e : Entry} {m m' : Machine} {mem mem' : Memory}

theorem Usable.bound (h : Usable e mem) {t : Tensor} (ht : t ∈ tensorsOf e.plan.builders) :
    t.cell < mem.length := by
  obtain ⟨ops, -, hk⟩ := h
  exact (hk.ready t ht).bound

/-- A plan stays usable while its cells keep what they hold. -/
theorem Usable.congr (h : Usable e mem) (hlen : mem.length ≤ mem'.length)
    (hc : ∀ c < mem.length, (mem'.cell c).words = (mem.cell c).words ∧
      (mem'.cell c).reserved = (mem.cell c).reserved ∧
      (mem'.cell c).damaged = (mem.cell c).damaged) : Usable e mem' := by
  obtain ⟨ops, hcompiled, hk⟩ := h
  refine ⟨ops, hcompiled, fun t ht => ?_, fun s t ht hs hi => ?_⟩
  · obtain ⟨hbound, hreserved, hwhole, hsize⟩ := hk.ready t ht
    obtain ⟨hw, hr, hd⟩ := hc _ hbound
    refine ⟨Nat.lt_of_lt_of_le hbound hlen, hr.trans hreserved, hd.trans hwhole, ?_⟩
    rw [Memory.contents, hw]
    exact hsize
  · have hbound := (hk.ready t (mem_tensorsOf_of_tensorAt ht)).bound
    rw [Memory.contents, (hc _ hbound).1]
    exact hk.initial s t ht hs hi

/-! ## Compilations -/

theorem Sound.intact (h : Sound w) {s : Platform} (hs : s.Clean)
    (hm : Intact w.platform.machine s.machine) : Sound ⟨s, w.entries⟩ where
  clean := hs
  whole c := by
    by_cases hc : c < w.platform.machine.memory.length
    · rw [hm.old c hc]
      exact h.whole c
    · exact hm.whole c (Nat.not_lt.1 hc)
  usable e he := (h.usable e he).congr hm.length fun c hc => by simp [hm.old c hc]
  apart := h.apart

theorem Sound.compiled (h : Sound w) {model : Model} {policy : Policy} {plan : Plan} {s : Platform}
    (hbuilt : model.Built) (hrun : outcome (compile model policy) w.platform = (.ok plan, s)) :
    Sound ⟨s, w.entries ++ [⟨model, policy, plan⟩]⟩ := by
  have hends := compile_ends policy hbuilt h.clean
  rw [hrun] at hends
  obtain ⟨hclean, ops, hcompiles, hfinished⟩ := hends
  obtain ⟨hclean, hwhole, husable, hapart⟩ := h.intact hclean hfinished.intact
  refine ⟨hclean, hwhole, fun e he => ?_, List.pairwise_append.2 ⟨hapart, by simp, ?_⟩⟩
  · rcases List.mem_append.1 he with he | he
    · exact husable e he
    · obtain rfl := List.mem_singleton.1 he
      exact ⟨ops, ⟨hbuilt, hcompiles, hfinished.made⟩, hfinished.kept⟩
  · -- The cells of the new plan are new.
    intro e he e' he' t ht t' ht' hc
    obtain rfl := List.mem_singleton.1 he'
    have hold := (h.usable e he).bound ht
    exact Nat.not_le.2 hold (hc ▸ hfinished.lent.new t' ht')

theorem Sound.refused (h : Sound w) {model : Model} {policy : Policy} {e : Failure} {s : Platform}
    (hbuilt : model.Built) (hrun : outcome (compile model policy) w.platform = (.error e, s)) :
    Sound ⟨s, w.entries⟩ := by
  have hends := compile_ends policy hbuilt h.clean
  rw [hrun] at hends
  exact h.intact hends.2.1 hends.2.2.1

/-! ## Runs -/

/-- However a run ends, it wrote cells of its plan only, took no memory from the device, and left no
failure behind. -/
theorem run_leaves {m₀ : Model} {policy : Policy} {p : Plan} {ops : List (Operation × Placement)}
    {s s' : Session} {answer : Except Failure Unit} (hc : p.Compiled m₀ policy ops)
    (hk : p.Kept ops m.memory) (hs : Session.Made p s) (hf : m.device.failure = none)
    (hrun : outcome Session.run (s, m) = (answer, (s', m'))) :
    Memory.Rewritten (p.Touched ops) m.memory m'.memory ∧ m'.device.failure = none ∧
      m'.device.allocated = m.device.allocated := by
  have hends := Session.run_ends hc hk hs.wired hf
  rw [hrun] at hends
  cases answer with
  | ok u =>
    obtain ⟨E, hhealthy⟩ := hends.healthy
    exact ⟨hends.memory, hhealthy.failure, hhealthy.allocated⟩
  | error e =>
    rcases hends with ⟨e', -, -, hsame⟩ | ⟨hstop, -⟩
    · cases hsame
      exact ⟨.refl, hf, rfl⟩
    · exact ⟨hstop.memory, hstop.failure, hstop.allocated⟩

theorem touched_cell {p : Plan} {ops : List (Operation × Placement)} {c : CellId}
    (hc : p.Touched ops c) : ∃ t ∈ tensorsOf p.builders, t.cell = c := by
  rcases hc with (⟨s, -, t, ht, rfl⟩ | ⟨u, hu, rfl⟩) | ⟨id, i, t, -, ht, rfl⟩
  · exact ⟨t, mem_tensorsOf_of_tensorAt ht, rfl⟩
  · exact ⟨u, List.mem_append_right _ hu, rfl⟩
  · exact ⟨t, mem_tensorsOf_of_tensorAt ht, rfl⟩

theorem Sound.ran (h : Sound w) {s s' : Session} {answer : Except Failure Unit}
    (he : e ∈ w.entries) (hs : Session.Made e.plan s)
    (hrun : outcome Session.run (s, w.platform.machine) = (answer, (s', m))) :
    Sound (w.onMachine m) := by
  obtain ⟨ops, hcompiled, hk⟩ := h.usable e he
  obtain ⟨hmem, hfailure, -⟩ := run_leaves hcompiled hk hs h.clean.failure hrun
  refine ⟨⟨h.clean.registry, hfailure⟩, fun c => (hmem.damaged c).trans (h.whole c),
    fun e' he' => ?_, h.apart⟩
  by_cases hsame : e' = e
  · subst hsame
    exact ⟨ops, hcompiled, hk.rewritten hcompiled.made hmem fun _ _ hc => hc⟩
  · have hapart : Apart e' e :=
      h.apart.forall he' he hsame
    obtain ⟨ops', hcompiled', hk'⟩ := h.usable e' he'
    refine ⟨ops', hcompiled', hk'.rewritten hcompiled'.made hmem fun t ht hc => ?_⟩
    obtain ⟨t', ht', hcell⟩ := touched_cell hc
    exact absurd hcell.symm (hapart t ht t' ht')

/-! ## Faults and holders -/

/-- The machines differ at most in the holders of cells, in what the device has left, and in the
fault that is pending. -/
structure Same (m m' : Machine) : Prop where
  length : m'.memory.length = m.memory.length
  cells : ∀ c, (m'.memory.cell c).words = (m.memory.cell c).words ∧
    (m'.memory.cell c).reserved = (m.memory.cell c).reserved ∧
    (m'.memory.cell c).damaged = (m.memory.cell c).damaged
  failure : m'.device.failure = m.device.failure

theorem Sound.same (h : Sound w) (hm : Same w.platform.machine m) : Sound (w.onMachine m) where
  clean := ⟨h.clean.registry, hm.failure.trans h.clean.failure⟩
  whole c := (hm.cells c).2.2.trans (h.whole c)
  usable e he := (h.usable e he).congr hm.length.ge fun c _ => hm.cells c
  apart := h.apart

/-- Changing the holders of cells one after another. -/
theorem same_foldl {f : Machine → Tensor → Machine} (hf : ∀ m t, Same m (f m t)) :
    ∀ {ts : List Tensor} {m : Machine}, Same m (ts.foldl f m)
  | [], _ => ⟨rfl, fun _ => ⟨rfl, rfl, rfl⟩, rfl⟩
  | t :: ts, m => by
    have hfirst := hf m t
    have hrest : Same (f m t) (ts.foldl f (f m t)) := same_foldl hf
    refine ⟨hrest.length.trans hfirst.length, fun c => ?_, hrest.failure.trans hfirst.failure⟩
    obtain ⟨hw, hr, hd⟩ := hfirst.cells c
    obtain ⟨hw', hr', hd'⟩ := hrest.cells c
    exact ⟨hw'.trans hw, hr'.trans hr, hd'.trans hd⟩

theorem same_holders {i : CellId} {f : Cell → Cell}
    (hf : ∀ c, (f c).words = c.words ∧ (f c).reserved = c.reserved ∧ (f c).damaged = c.damaged)
    (c : CellId) : (Memory.cell (mem.modify i f) c).words = (mem.cell c).words ∧
      (Memory.cell (mem.modify i f) c).reserved = (mem.cell c).reserved ∧
      (Memory.cell (mem.modify i f) c).damaged = (mem.cell c).damaged := by
  refine Memory.cell_modify_holds (P := fun x => x.words = (mem.cell c).words ∧
    x.reserved = (mem.cell c).reserved ∧ x.damaged = (mem.cell c).damaged) (fun x hx => ?_)
    ⟨rfl, rfl, rfl⟩
  obtain ⟨hw, hr, hd⟩ := hf x
  exact ⟨hw.trans hx.1, hr.trans hx.2.1, hd.trans hx.2.2⟩

theorem same_retain (m : Machine) (t : Tensor) : Same m (t.retain m) :=
  ⟨List.length_modify _ _ _, same_holders fun _ => ⟨rfl, rfl, rfl⟩, rfl⟩

theorem same_release (m : Machine) (t : Tensor) : Same m (t.release m) :=
  ⟨List.length_modify _ _ _, same_holders fun _ => ⟨rfl, rfl, rfl⟩, rfl⟩

/-! ## All worlds -/

theorem sound_start (settings : Settings) : Sound ⟨settings.platform, []⟩ where
  clean := by
    refine ⟨fun b hb => ?_, rfl⟩
    have hb : b = Backend.device ∨ b = Backend.host := by
      simp only [Settings.platform] at hb
      split at hb <;> split at hb <;> simp at hb <;> simp [hb]
    rcases hb with rfl | rfl
    · exact .inr rfl
    · exact .inl rfl
  whole c := by
    rw [Memory.cell_of_le (Nat.zero_le c)]
    rfl
  usable e he := by cases he
  apart := List.Pairwise.nil

/-- Whatever happens next keeps a world sound. -/
theorem Step.sound (h : Step w w') (hw : Sound w) : Sound w' := by
  cases h with
  | compiled hbuilt hrun => exact hw.compiled hbuilt hrun
  | refused hbuilt hrun => exact hw.refused hbuilt hrun
  | ran he hs hrun => exact hw.ran he hs hrun
  | fault text => exact hw.same ⟨rfl, fun _ => ⟨rfl, rfl, rfl⟩, rfl⟩
  | retained he => exact hw.same (same_foldl same_retain)
  | released he => exact hw.same (same_foldl same_release)

/-- **Every world is sound.** -/
theorem Reached.sound {settings : Settings} (h : Reached settings w) : Sound w := by
  induction h with
  | start => exact sound_start settings
  | step _ hstep ih => exact hstep.sound ih

end World

end HeteroNet
