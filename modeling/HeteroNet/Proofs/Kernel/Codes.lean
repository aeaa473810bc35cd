import HeteroNet.Proofs.Kernel.Activations
import HeteroNet.Proofs.Kernel.Occupied
import HeteroNet.Proofs.Plan.Visits

/-
Max pooling of codes. Codes compare as the words they are stored as, so what a window leaves is its
largest code. The activation then bounds that code, whatever number it stands for.
-/

namespace HeteroNet

open Compute Kernel Layout Word

namespace Compute

/-- The largest of several codes is among them, and is what a window leaves. -/
theorem largest_codes : ∀ {cs : List UInt8}, cs ≠ [] →
    ∃ m ∈ cs, (∀ c ∈ cs, c ≤ m) ∧ largest (cs.map ofCode) = ofCode m := by
  suffices h : ∀ (cs : List UInt8) (a : UInt8), ∃ m ∈ a :: cs, (∀ c ∈ a :: cs, c ≤ m) ∧
      (cs.map ofCode).foldl Word.max (ofCode a) = ofCode m by
    intro cs hne
    obtain ⟨a, cs, rfl⟩ := List.exists_cons_of_ne_nil hne
    obtain ⟨m, hm, hle, hfold⟩ := h cs a
    refine ⟨m, hm, hle, ?_⟩
    rw [largest, List.map_cons, List.foldl_cons, negInfinity_max_ofCode, hfold]
  intro cs
  induction cs with
  | nil => exact fun a => ⟨a, by simp, by simp, rfl⟩
  | cons b cs ih =>
    intro a
    obtain ⟨m, hm, hle, hfold⟩ := ih (if a < b then b else a)
    have hboth : a ≤ (if a < b then b else a) ∧ b ≤ (if a < b then b else a) := by
      simp only [UInt8.le_iff_toNat_le, UInt8.lt_iff_toNat_lt]
      split <;> omega
    have hfirst := hle _ (List.mem_cons_self ..)
    refine ⟨m, ?_, fun c hc => ?_, ?_⟩
    · rcases List.mem_cons.1 hm with rfl | hm
      · split <;> simp
      · simp [hm]
    · simp only [List.mem_cons] at hc
      rcases hc with rfl | rfl | hc
      · exact UInt8.le_trans hboth.1 hfirst
      · exact UInt8.le_trans hboth.2 hfirst
      · exact hle c (List.mem_cons_of_mem _ hc)
    · rw [List.map_cons, List.foldl_cons, max_ofCode, hfold]

variable {g : PoolGeometry} {p : Feature}

/-- The codes under the window of the output at `p`. -/
def windowCodes (g : PoolGeometry) (codes : Array UInt8) (p : Feature) : List UInt8 :=
  (g.window.taps g.input p.h p.w).filterMap fun t =>
    codes[Layout.nhwc.offset g.input ⟨p.n, t.inputH, t.inputW, p.c⟩]?

theorem windowWords_codes (h : g.Fits) {codes : Array UInt8}
    (hsize : codes.size = g.input.elements) (hp : g.output.Contains p) :
    windowWords g .nhwc (codes.map ofCode) p = some ((windowCodes g codes p).map ofCode) := by
  have htaps : ∀ t ∈ g.window.taps g.input p.h p.w,
      Layout.nhwc.offset g.input ⟨p.n, t.inputH, t.inputW, p.c⟩ < codes.size := fun t ht => by
    rw [hsize]
    exact Layout.offset_lt (tap_contains h hp ht)
  rw [windowWords_eq, windowCodes]
  generalize g.window.taps g.input p.h p.w = taps at htaps
  induction taps with
  | nil => rfl
  | cons t taps ih =>
    have ht := htaps t (List.mem_cons_self ..)
    have hrest := ih fun t' ht' => htaps t' (List.mem_cons_of_mem _ ht')
    rw [List.mapM_cons, hrest]
    simp [Buffer.read, ht]

/-- What pooling leaves at one position. -/
theorem getElem?_of_gives (h : g.Fits) {x y : Buffer} (hx : x.size = g.input.elements)
    (hgives : Gives .nhwc (.maxPool2d g .none) [g.input.dims] g.output.dims [x] y)
    (hp : g.output.Contains p) :
    y[Layout.nhwc.offset g.output p]? = (windowWords g .nhwc x p).map largest := by
  have hsome : ∀ q, g.output.Contains q → ((windowWords g .nhwc x q).map largest).isSome := by
    intro q hq
    simpa using windowWords_isSome h hq hx
  have hzeros : (Buffer.zeros g.output.elements).size = g.output.dims.elements := by
    rw [Buffer.size_zeros, Shape.elements_dims]
  have hcompute := hgives.compute (.cons (by rw [hx, Shape.elements_dims]) .nil) hzeros
  obtain ⟨z, hz, -, hat⟩ := Feature.fill_spec (l := .nhwc)
    (fun q => (windowWords g .nhwc x q).map largest) (Buffer.size_zeros g.output.elements) hsome
  have hpool : maxPool2d g .nhwc x .none (Buffer.zeros g.output.elements) = some z := by
    rw [← hz, maxPool2d, pool]
    congr 1
    funext q
    cases windowWords g .nhwc x q <;> rfl
  obtain rfl : z = y := Option.some.inj (hpool.symm.trans hcompute)
  exact hat p hp

/-- The buffer that pooling leaves of codes, in one step or with the activation after it. -/
theorem maxPool2d_gives_codes (hfits : g.Fits) (act : Activation) {codes : Array UInt8}
    (hsize : codes.size = g.input.elements) :
    ∃ y y' : Buffer,
      Gives .nhwc (.maxPool2d g act) [g.input.dims] g.output.dims [codes.map ofCode] y ∧
      Gives .nchw (.maxPool2d g .none) [g.input.dims] g.output.dims [codes.map ofCode] y' ∧
      (∀ z, Stores .nchw g.output.dims y' z → ∃ z', Stores .nchw g.output.dims y z' ∧
        (Kernel.activation act).compute .nchw [] z = some z') ∧
      ∀ p rule, g.output.Contains p → g.window.Lies rule g.input g.output →
        ∃ m ∈ windowCodes g codes p, (∀ c ∈ windowCodes g codes p, c ≤ m) ∧
          y[Layout.nhwc.offset g.output p]? = some (ofCode (act.bound m)) := by
  have hx : (codes.map ofCode).size = g.input.elements := by rw [Array.size_map, hsize]
  obtain ⟨y, -, hgives⟩ := maxPool2d_gives hfits hx
  have hnone := hgives .nhwc .none
  have hdevice := hgives .nchw .none
  rw [activate_none] at hnone hdevice
  refine ⟨activate act y, y, hgives .nhwc act, hdevice, fun z hz => ?_, fun p rule hp hlies => ?_⟩
  · exact ⟨activate act z, hz.map act.apply, activation_compute ..⟩
  · have hwords := windowWords_codes hfits hsize hp
    have hne : windowCodes g codes p ≠ [] := fun hnil =>
      windowWords_ne_nil hlies hp hwords (by rw [hnil, List.map_nil])
    obtain ⟨m, hm, hle, hlargest⟩ := largest_codes hne
    refine ⟨m, hm, hle, ?_⟩
    rw [getElem?_activate, getElem?_of_gives hfits hx hnone hp, hwords, Option.map_some, hlargest,
      Option.map_some, Activation.apply_ofCode]

end Compute

/-- Max pooling keeps the type. -/
theorem Planner.maxPool2d_sameType {os : Operands} {op : Operation} {p : PoolParams}
    {i o : OperandId} (h : pool2d os op .maxPool2d p = .ok ()) (hi : op.input 0 = .ok i)
    (ho : op.output = .ok o) : sameType os i o = .ok () := by
  simp only [pool2d, bind_eq_ok, lift_eq_ok, hi, ho, Except.ok.injEq, exists_eq_left',
    reduceCtorEq, if_false] at h
  obtain ⟨_, hsame, -⟩ := h
  exact hsame

/-- The stages of max pooling. -/
theorem Stage.generate_maxPool2d {os : Operands} {op : Operation} {p : PoolParams} {o : OperandId}
    {g : PoolGeometry} {act : Activation} (ha : op.attributes = .maxPool2d p)
    (ho : op.output = .ok o) (hg : Geometry.pool2d .maxPool2d op p os = .ok (g, act))
    (id : BackendId) :
    Stage.generate .host id op os = .ok (.host id (.maxPool2d g act) op.inputs o) ∧
    Stage.generate .device id op os
      = .ok (.device id (.maxPool2d g .none) act op.inputs o none) := by
  simp only [Stage.generate, ha, hg, bind, Except.bind, Stage.ofKernel, ho]
  exact ⟨rfl, rfl⟩

/-- **Max pooling of codes.** On either backend, an accepted `maxPool2d` leaves at each position the
largest code under the window, bounded as a code: at most one for `relu1`, at most six for `relu6`,
and as it is for `relu`, whatever the type. No buffer in memory has more elements than there are
signed sizes. That is the code of the bounded number if no bound is
reached, and for types whose codes stand for themselves; for `relu`, just if the code is not
below the zero point. -/
theorem maxPool2d_codes {os : Operands} {c : Context} {op : Operation} {p : PoolParams}
    {d d' : PlanDraft} (ha : op.attributes = .maxPool2d p) (harity : op.checkArity = .ok ())
    (haccepted : (Planner.checkOperation os c op).run d = .ok ((), d')) :
    ∃ i o source target g act, op.inputs = [i] ∧ op.outputs = [o] ∧
      os[i]? = some source ∧ os[o]? = some target ∧ target.type.same source.type = true ∧
      source.shape = g.input.dims ∧ target.shape = g.output.dims ∧
      Geometry.pool2d .maxPool2d op p os = .ok (g, act) ∧
      (∀ id, Stage.generate .host id op os = .ok (.host id (.maxPool2d g act) [i] o) ∧
        Stage.generate .device id op os = .ok (.device id (.maxPool2d g .none) act [i] o none)) ∧
      ∀ codes : Array UInt8, codes.size = g.input.elements → ∃ y y' : Buffer,
        Gives .nhwc (.maxPool2d g act) [g.input.dims] g.output.dims [codes.map ofCode] y ∧
        Gives .nchw (.maxPool2d g .none) [g.input.dims] g.output.dims [codes.map ofCode] y' ∧
        (∀ z, Stores .nchw g.output.dims y' z → ∃ z', Stores .nchw g.output.dims y z' ∧
          (Kernel.activation act).compute .nchw [] z = some z') ∧
        ∀ q, g.output.Contains q → codes.size < Size.half → ∃ m ∈ windowCodes g codes q,
          (∀ c ∈ windowCodes g codes q, c ≤ m) ∧
          y[Layout.nhwc.offset g.output q]? = some (ofCode (act.bound m)) ∧
          (source.type.Plain ∨ source.type.Unbounded act m →
            ofCode (act.bound m) = source.type.activated act m) ∧
          (source.type.Ordinary → act = .relu →
            (ofCode (act.bound m) = source.type.activated act m ↔
              source.type.zeroPoint ≤ m.toNat)) := by
  simp only [Planner.checkOperation, ha, Planner.planning_lift] at haccepted
  obtain ⟨i, o, g, act, hi, ho, hg, hfits, ⟨source, hsource, hin⟩, target, htarget, hout⟩ :=
    Planner.pool2d_ok haccepted.1
  obtain ⟨source', target', hsource', htarget', hsame⟩ :=
    Planner.sameType_ok.1 (Planner.maxPool2d_sameType haccepted.1 hi ho)
  cases hsource.symm.trans hsource'
  cases htarget.symm.trans htarget'
  have hlen : op.inputs.length = 1 := length_of_admits_one (admits_of_arity harity ha) rfl
  have hinputs := inputs_eq_one hlen hi
  refine ⟨i, o, source, target, g, act, hinputs, output_of_arity harity ho, hsource, htarget,
    hsame, hin, hout, hg, fun id => hinputs ▸ Stage.generate_maxPool2d ha ho hg id,
    fun codes hcodes => ?_⟩
  obtain ⟨y, y', hhost, hdevice, hafter, hat⟩ := maxPool2d_gives_codes hfits act hcodes
  refine ⟨y, y', hhost, hdevice, hafter, fun q hq hmemory => ?_⟩
  obtain ⟨rule, -, hlies⟩ :=
    Geometry.pool2d_lies hg (Geometry.pool2d_signed hg hq (hcodes ▸ hmemory))
  obtain ⟨m, hm, hle, hy⟩ := hat q rule hq hlies
  refine ⟨m, hm, hle, hy, ?_, ?_⟩
  · rintro (hplain | hunbounded)
    · exact (hplain.activated act m).symm
    · rw [hunbounded.code, hunbounded.activated]
  · rintro hordinary rfl
    rw [eq_comm]
    exact hordinary.activated_relu

/-- Two rows and columns of codes whose numbers are halves above and below ten, and one of them;
the numbers one, two and three. -/
def halves : Operands :=
  let number (n : UInt8) : Operand :=
    { shape := [], type := { element := .scalarInt32 }, data := some [n, 0, 0, 0] }
  let codes (extent : Nat) : Operand :=
    { shape := [1, extent, extent, 1],
      type := { element := .quant8, scale := ⟨0x3f000000⟩, zeroPoint := 10 } }
  [codes 2, codes 1, number 1, number 2, number 3]

/-- One window over everything, bounded by six. -/
def halvesPool : PoolParams :=
  { padding := 3, strideW := 2, strideH := 2, windowW := 3, windowH := 3, activation := 4 }

def halvesGeometry : PoolGeometry where
  input := ⟨1, 2, 2, 1⟩
  output := ⟨1, 1, 1, 1⟩
  window := { height := 2, width := 2, strideH := 1, strideW := 1, padding := {} }

/-- The largest code, 14, becomes six. -/
theorem maxPool2d_codes_halves : ∃ y : Buffer,
    Gives .nhwc (.maxPool2d halvesGeometry .relu6) [[1, 2, 2, 1]] [1, 1, 1, 1]
      [(#[7, 14, 3, 9] : Array UInt8).map ofCode] y ∧ y[0]? = some (ofCode 6) := by
  obtain ⟨i, o, source, target, g, act, -, -, -, -, -, -, -, hg, -, hcodes⟩ :=
    @maxPool2d_codes halves (.new .host) ⟨[0], [1], .maxPool2d halvesPool⟩ halvesPool {} {} rfl rfl
      rfl
  have hgeometry : Geometry.pool2d .maxPool2d ⟨[0], [1], .maxPool2d halvesPool⟩ halvesPool halves
      = .ok (halvesGeometry, .relu6) := rfl
  cases hgeometry.symm.trans hg
  obtain ⟨y, -, hy, -, -, hat⟩ := hcodes #[7, 14, 3, 9] rfl
  obtain ⟨m, hm, hle, hword, -⟩ := hat ⟨0, 0, 0, 0⟩ (by decide) (by decide)
  have hwindow : windowCodes halvesGeometry #[7, 14, 3, 9] ⟨0, 0, 0, 0⟩ = [7, 14, 3, 9] := by
    decide +kernel
  rw [hwindow] at hm hle
  have hlargest : ∀ m ∈ [7, 14, 3, 9], (∀ c ∈ [7, 14, 3, 9], c ≤ m) → m = (14 : UInt8) := by
    decide +kernel
  obtain rfl := hlargest m hm hle
  exact ⟨y, hy, hword⟩

/-- The code 14 stands for two, which six does not bound: the same node leaves another code than
that of the bounded number. -/
theorem maxPool2d_not_activated :
    Planner.pool2d halves ⟨[0], [1], .maxPool2d halvesPool⟩ .maxPool2d halvesPool = .ok () ∧
    Stage.generate .host "cpu" ⟨[0], [1], .maxPool2d halvesPool⟩ halves
      = .ok (.host "cpu" (.maxPool2d halvesGeometry .relu6) [0] 1) ∧
    (Kernel.maxPool2d halvesGeometry .relu6).compute .nhwc
      [(#[7, 14, 3, 9] : Array UInt8).map ofCode] (Buffer.zeros 1) = some #[ofCode 6] ∧
    TypeInfo.activated { element := .quant8, scale := ⟨0x3f000000⟩, zeroPoint := 10 } .relu6 14
      = ofCode 14 ∧
    ofCode 6 ≠ ofCode 14 := by
  refine ⟨rfl, rfl, ?_⟩
  decide +kernel

end HeteroNet
