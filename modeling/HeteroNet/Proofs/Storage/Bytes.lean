import HeteroNet.Element

/-
The bytes of a caller and the words they stand for. Storing elements and reading them back gives the
bytes again, for every type and every pattern of bits: the words of four bytes are those bits, and
the words of the codes of a quantized tensor round to the codes (`ElementType.encode_take_decode`).
-/

namespace HeteroNet

/-! ## One element -/

theorem Word.toBytes_ofBytes (a b c d : UInt8) : (Word.ofBytes a b c d).toBytes = [a, b, c, d] := by
  simp only [Word.toBytes, Word.ofBytes, List.cons.injEq, and_true, ← UInt8.toBitVec_inj]
  refine ⟨by simp, ?_, ?_, ?_⟩
  -- Bit `i` of each byte, where the three other bytes have none.
  all_goals
    refine BitVec.eq_of_getLsbD_eq fun i hi => ?_
    simp
    grind

/-- A code is a number of eight bits, which a float holds exactly. -/
theorem Word.toCode_ofCode (b : UInt8) : (Word.ofCode b).toCode = b := by
  have hall : ∀ n : Fin 256, (Word.ofCode (UInt8.ofNat n.val)).toCode = UInt8.ofNat n.val := by
    decide +kernel
  have hb := hall ⟨b.toNat, b.toNat_lt⟩
  rwa [UInt8.ofNat_toNat] at hb

/-! ## All elements -/

namespace ElementType

theorem flatMap_take_wordsOfBytes : ∀ {n : Nat} {bytes : Bytes}, n * 4 ≤ bytes.length →
    ((wordsOfBytes bytes).take n).flatMap Word.toBytes = bytes.take (n * 4)
  | 0, bytes, _ => by simp
  | n + 1, a :: b :: c :: d :: rest, h => by
    have hrest : n * 4 ≤ rest.length := by
      simp only [List.length_cons] at h
      omega
    rw [wordsOfBytes, List.take_succ_cons, List.flatMap_cons, flatMap_take_wordsOfBytes hrest,
      Word.toBytes_ofBytes, Nat.succ_mul]
    rfl
  | n + 1, [], h | n + 1, [_], h | n + 1, [_, _], h | n + 1, [_, _, _], h => by
    simp only [List.length_cons, List.length_nil] at h
    omega

theorem flatMap_take_codes (n : Nat) (bytes : Bytes) :
    ((bytes.map Word.ofCode).take n).flatMap (fun w => [w.toCode]) = bytes.take n := by
  rw [← List.map_take, List.flatMap_map]
  simp only [Word.toCode_ofCode, List.flatMap_singleton']

/-- **Elements that are read and stored have the bytes they had.** -/
theorem encode_take_decode (t : ElementType) {n : Nat} {bytes : Bytes}
    (h : n * t.size ≤ bytes.length) :
    t.encode ((t.decode bytes).take n) = bytes.take (n * t.size) := by
  cases t with
  | quant8 => exact (flatMap_take_codes n bytes).trans (by rw [size, Nat.mul_one])
  | scalarFloat32 | scalarInt32 | scalarUInt32 | float32 | int32 =>
    exact flatMap_take_wordsOfBytes h

end ElementType

end HeteroNet
