import HeteroNet.Proofs.Kernel.Gives
import HeteroNet.Proofs.Plan.Checks
import HeteroNet.Proofs.Storage.Wholes
import HeteroNet.Stage

/-
Conversions between integers. Words of the same type are copied. Any others go through a single, so
an integer comes out as the nearest one of 24 significant bits, or as the end of the range if that
one lies beyond it. Where the types differ, an integer therefore stays the same if it has no more
bits, or if it is the greatest of the target.
-/

namespace HeteroNet

namespace TypeInfo

variable {source target : TypeInfo}

/-- The elements are integers of 32 bits. -/
def Integral (t : TypeInfo) : Prop :=
  t.element = .scalarInt32 ∨ t.element = .scalarUInt32 ∨ t.element = .int32

/-- The integer whose bits a word of the type has. -/
def integer (t : TypeInfo) (w : Word) : Int :=
  if t.element = .scalarUInt32 then w.unsigned else w.signed

/-- The least integer of the type. -/
def least (t : TypeInfo) : Int := if t.element = .scalarUInt32 then 0 else -0x80000000

/-- The greatest integer of the type. -/
def greatest (t : TypeInfo) : Int := if t.element = .scalarUInt32 then 0xffffffff else 0x7fffffff

theorem integer_injective (t : TypeInfo) : Function.Injective t.integer := by
  rintro ⟨a⟩ ⟨b⟩ h
  unfold integer at h
  split at h
  · exact congrArg Word.mk (UInt32.toNat_inj.1 (Int.ofNat_inj.1 h))
  · have hbits : a.toInt32 = b.toInt32 := Int32.toInt_inj.1 h
    exact congrArg Word.mk (congrArg Int32.toUInt32 hbits)

theorem integer_bounds (t : TypeInfo) (w : Word) :
    t.least ≤ t.integer w ∧ t.integer w ≤ t.greatest := by
  unfold least integer greatest
  split
  · have := w.bits.toNat_lt
    unfold Word.unsigned
    omega
  · have hlow := w.bits.toInt32.minValue_le_toInt
    have hhigh := w.bits.toInt32.toInt_le
    exact ⟨hlow, hhigh⟩

/-- No integer of 32 bits is too large for a single. -/
theorem log2_integer (t : TypeInfo) (w : Word) : (t.integer w).natAbs.log2 < 64 := by
  obtain ⟨hlow, hhigh⟩ := t.integer_bounds w
  by_cases hzero : (t.integer w).natAbs = 0
  · rw [hzero]
    decide
  · rw [Nat.log2_lt hzero]
    unfold least at hlow
    unfold greatest at hhigh
    split at hlow <;> split at hhigh <;> omega

/-- The number that a word of integers stands for is the integer, as a single. -/
theorem Integral.real (h : source.Integral) (w : Word) :
    source.real w = Word.ofInt (source.integer w) := by
  rcases h with h | h | h <;> simp only [TypeInfo.real, integer, h, reduceCtorEq, if_false, if_true]
  rfl

/-- A single that was an integer is stored as the nearest one of 24 bits, or as an end of the
range. -/
theorem Integral.integer_word (h : target.Integral) {i : Int} (hlarge : i.natAbs.log2 < 64) :
    target.integer (target.word (Word.ofInt i))
      = max target.least (min target.greatest (nearestInt i)) := by
  rcases h with h | h | h <;>
    simp only [word, integer, least, greatest, h, reduceCtorEq, if_false, if_true]
  · exact Word.signed_truncSigned hlarge
  · exact Word.unsigned_truncUnsigned hlarge
  · exact Word.signed_truncSigned hlarge

/-- Types that are the same read words alike. -/
theorem integer_of_same (h : source.same target = true) : source.integer = target.integer := by
  simp only [same, Bool.and_eq_true, beq_iff_eq] at h
  funext w
  rw [integer, integer, h.1.1]

end TypeInfo

open TypeInfo Kernel

variable {source target : TypeInfo}

/-- The integer that a conversion leaves. -/
theorem integer_castWord (hs : source.Integral) (ht : target.Integral) (w : Word) :
    target.integer (castWord source target w)
      = if source.same target then source.integer w
        else max target.least (min target.greatest (nearestInt (source.integer w))) := by
  rw [castWord]
  split
  · rename_i hsame
    rw [integer_of_same hsame]
  · rw [hs.real, ht.integer_word (source.log2_integer w)]

/-- The greatest integers have more than 24 bits and round up to a power of two that the type does
not hold; so they stay. -/
theorem greatest_le_nearestInt (t : TypeInfo) : t.greatest ≤ nearestInt t.greatest := by
  unfold greatest
  split <;> decide

/-- The least integers are powers of two, or zero. -/
theorem short_least (t : TypeInfo) : Short t.least.natAbs := by
  unfold least
  split
  · exact ⟨0, 0, by decide, rfl⟩
  · exact ⟨1, 31, by decide, rfl⟩

/-- Which integers survive a conversion between types that differ. -/
theorem clamp_nearestInt_eq_self {t : TypeInfo} {i : Int} (hlow : t.least ≤ i)
    (hhigh : i ≤ t.greatest) :
    max t.least (min t.greatest (nearestInt i)) = i ↔ Short i.natAbs ∨ i = t.greatest := by
  constructor
  · intro h
    by_cases hover : t.greatest ≤ nearestInt i
    · exact .inr (by omega)
    · by_cases hunder : nearestInt i ≤ t.least
      · have hi : i = t.least := by omega
        exact .inl (hi ▸ short_least t)
      · exact .inl (nearestInt_eq_self.1 (by omega))
  · rintro (hshort | rfl)
    · rw [nearestInt_eq_self.2 hshort]
      omega
    · have := greatest_le_nearestInt t
      omega

theorem castWord_eq_iff (hs : source.Integral) (ht : target.Integral) {w w' : Word}
    (hw' : target.integer w' = source.integer w) :
    castWord source target w = w' ↔ source.same target = true ∨ Short (source.integer w).natAbs ∨
      source.integer w = target.greatest := by
  obtain ⟨hlow, hhigh⟩ := target.integer_bounds w'
  rw [hw'] at hlow hhigh
  rw [← target.integer_injective.eq_iff, integer_castWord hs ht, hw']
  split
  · rename_i hsame
    simp [hsame]
  · rename_i hsame
    rw [clamp_nearestInt_eq_self hlow hhigh]
    simp [hsame]

/-- A conversion keeps the shape. -/
theorem Planner.cast_shape {os : Operands} {i o : OperandId} {source target : Operand}
    (hsource : os.get i = .ok source) (htarget : os.get o = .ok target)
    (haccepted : cast os ⟨[i], [o], .cast⟩ = .ok ()) : source.shape = target.shape := by
  obtain ⟨_, _, s, hi, ho, ⟨operand, hoperand, rfl⟩, ⟨operand', hoperand', hsame⟩⟩ :=
    cast_ok haccepted
  cases hi
  cases ho
  rw [Operands.get_eq_ok, hoperand, Option.some.injEq] at hsource
  rw [Operands.get_eq_ok, hoperand', Option.some.injEq] at htarget
  rw [← hsource, ← htarget, hsame]

/-- The stages of a conversion. -/
theorem Stage.generate_cast {os : Operands} {i o : OperandId} {source target : Operand}
    (hsource : os.get i = .ok source) (htarget : os.get o = .ok target) (place : Place)
    (id : BackendId) :
    Stage.generate place id ⟨[i], [o], .cast⟩ os = .ok (match place with
      | .host => .host id (.cast source.type target.type) [i] o
      | .device => .device id (.cast source.type target.type) .none [i] o none) := by
  have hsource' : (liftM (os.get i) : Except Failure Operand) = .ok source := lift_eq_ok.2 hsource
  have htarget' : (liftM (os.get o) : Except Failure Operand) = .ok target := lift_eq_ok.2 htarget
  have hkernel : Stage.generate place id ⟨[i], [o], .cast⟩ os
      = Stage.ofKernel place id ⟨[i], [o], .cast⟩ (fun _ => .cast source.type target.type)
        .none := by
    simp only [Stage.generate, Operation.input, Operation.output, List.getElem?_cons_zero, bind,
      Except.bind, hsource', htarget']
  rw [hkernel]
  cases place <;> rfl

/-- **Conversions between integers.** On either backend, a `cast` between integer types leaves of
each integer the integer itself if the types are the same, and else the nearest one of 24
significant bits, or the end of the range of the target beyond which that lies. So the word of the
same integer, if the target has one, is left just in these cases: the types are the same, the
integer has at most 24 significant bits, or it is the greatest of the target. -/
theorem cast_integers {os : Operands} {i o : OperandId} {source target : Operand}
    (hsource : os.get i = .ok source) (htarget : os.get o = .ok target)
    (haccepted : Planner.cast os ⟨[i], [o], .cast⟩ = .ok ())
    (hs : source.type.Integral) (ht : target.type.Integral) (place : Place) (id : BackendId) :
    let k := Kernel.cast source.type target.type
    Stage.generate place id ⟨[i], [o], .cast⟩ os
      = .ok (match place with
        | .host => .host id k [i] o
        | .device => .device id k .none [i] o none) ∧
    ∀ x : Buffer, ∃ y : Buffer, Gives place.layout k [source.shape] target.shape [x] y ∧
      ∀ (j : Nat) w, x[j]? = some w → ∃ v, y[j]? = some v ∧
        target.type.integer v = (if source.type.same target.type then source.type.integer w
          else max target.type.least
            (min target.type.greatest (nearestInt (source.type.integer w)))) ∧
        ∀ w', target.type.integer w' = source.type.integer w →
          (v = w' ↔ source.type.same target.type = true ∨ Short (source.type.integer w).natAbs ∨
            source.type.integer w = target.type.greatest) := by
  intro k
  refine ⟨Stage.generate_cast hsource htarget place id, fun x =>
    ⟨x.map (castWord source.type target.type), ?_, fun j w hw => ?_⟩⟩
  · rw [← Planner.cast_shape hsource htarget haccepted]
    exact cast_gives place.layout source.type target.type
  · exact ⟨_, by rw [Array.getElem?_map, hw]; rfl, integer_castWord hs ht w,
      fun w' hw' => castWord_eq_iff hs ht hw'⟩

/-- A signed integer and an unsigned one. -/
def signedUnsigned : Operands :=
  [{ shape := [1], type := { element := .int32 } },
    { shape := [1], type := { element := .scalarUInt32 } }]

/-- `2^24 + 1` has 25 bits: its word is not the one that the device leaves. -/
theorem cast_integers_signedUnsigned : ∃ y : Buffer,
    Gives .nchw (.cast { element := .int32 } { element := .scalarUInt32 }) [[1]] [1]
      [#[⟨0x01000001⟩]] y ∧
    ∃ v, y[0]? = some v ∧ v.unsigned = 0x01000000 := by
  obtain ⟨-, hgives⟩ := @cast_integers signedUnsigned 0 1 _ _ rfl rfl rfl (.inr (.inr rfl))
    (.inr (.inl rfl)) .device "gpu"
  obtain ⟨y, hy, hat⟩ := hgives #[⟨0x01000001⟩]
  obtain ⟨v, hv, hinteger, -⟩ := hat 0 ⟨0x01000001⟩ rfl
  refine ⟨y, hy, v, hv, ?_⟩
  have hleft : (v.unsigned : Int) = 0x01000000 := hinteger.trans (by decide)
  exact Int.ofNat_inj.1 hleft

/-- Tensors of integers whose types differ in a scale, which integers do not use. -/
theorem cast_inexact : ¬ ∀ source target : TypeInfo, source.Integral → target.Integral →
    ∀ w w', target.integer w' = source.integer w →
      (Kernel.cast source target).compute .nhwc [#[w]] (Buffer.zeros 1) = some #[w'] := by
  intro h
  have hsame := h { element := .int32 } { element := .int32, scale := ⟨0x3f000000⟩ }
    (.inr (.inr rfl)) (.inr (.inr rfl)) ⟨0x01000001⟩ ⟨0x01000001⟩ rfl
  revert hsame
  decide +kernel

end HeteroNet
