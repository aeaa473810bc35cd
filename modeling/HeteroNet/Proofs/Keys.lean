import HeteroNet.Policy
import Mathlib

/-
Keys and values of overrides as they are written: a name between blanks, before which a key may
have one `keyStart`, and a value that may be `none` in letters of any case. What reading them makes
of them is the one name or value that they are a way to write.
-/

namespace HeteroNet

namespace Text

/-! ### Blanks at the ends -/

/-- Neither the first nor the last character is blank. -/
structure Tight (cs : List Char) : Prop where
  head : ∀ c ∈ cs.head?, isBlank c = false
  last : ∀ c ∈ cs.getLast?, isBlank c = false

/-- The text `t`, between blanks. -/
def Trims (s t : String) : Prop :=
  Tight t.toList ∧ ∃ lead trail : List Char, (∀ c ∈ lead, isBlank c) ∧ (∀ c ∈ trail, isBlank c) ∧
    s.toList = lead ++ t.toList ++ trail

theorem trimChars_eq (cs : List Char) :
    trimChars cs = (cs.dropWhile isBlank).rdropWhile isBlank := rfl

theorem dropWhile_of_head {cs : List Char} (h : ∀ c ∈ cs.head?, isBlank c = false) :
    cs.dropWhile isBlank = cs := by
  cases cs with
  | nil => rfl
  | cons c cs => rw [List.dropWhile_cons_of_neg (by simp [h c rfl])]

theorem rdropWhile_of_last {cs : List Char} (h : ∀ c ∈ cs.getLast?, isBlank c = false) :
    cs.rdropWhile isBlank = cs := by
  refine List.rdropWhile_eq_self_iff.2 fun hne => ?_
  rw [h _ (List.getLast?_eq_some_getLast hne)]
  exact Bool.false_ne_true

theorem rdropWhile_append {cs trail : List Char} (h : ∀ c ∈ trail, isBlank c) :
    (cs ++ trail).rdropWhile isBlank = cs.rdropWhile isBlank := by
  have hreverse : ∀ c ∈ trail.reverse, isBlank c := fun c hc => h c (List.mem_reverse.1 hc)
  rw [List.rdropWhile, List.rdropWhile, List.reverse_append, List.dropWhile_append_of_pos hreverse]

theorem tight_trimChars (cs : List Char) : Tight (trimChars cs) := by
  rw [trimChars_eq]
  refine ⟨fun c hc => ?_, fun c hc => ?_⟩
  · obtain ⟨trail, htrail⟩ := List.rdropWhile_prefix isBlank (cs.dropWhile isBlank)
    have hhead : (cs.dropWhile isBlank).head? = some c := by
      rw [← htrail, List.head?_append, Option.mem_def.1 hc, Option.some_or]
    have hblank := List.head?_dropWhile_not isBlank cs
    rw [hhead] at hblank
    exact hblank
  · obtain ⟨hne, rfl⟩ := List.mem_getLast?_eq_getLast hc
    exact Bool.eq_false_iff.2 (List.rdropWhile_last_not isBlank _ hne)

/-- Blanks around a text go away. -/
theorem trimChars_between {lead cs trail : List Char} (hlead : ∀ c ∈ lead, isBlank c)
    (htrail : ∀ c ∈ trail, isBlank c) (h : Tight cs) : trimChars (lead ++ cs ++ trail) = cs := by
  rw [trimChars_eq, List.append_assoc, List.dropWhile_append_of_pos hlead]
  cases cs with
  | nil => rw [List.nil_append, List.dropWhile_eq_nil_iff.2 htrail, List.rdropWhile_nil]
  | cons c cs =>
    have hhead : ∀ c' ∈ (c :: cs ++ trail).head?, isBlank c' = false := h.head
    rw [dropWhile_of_head hhead, rdropWhile_append htrail, rdropWhile_of_last h.last]

/-- What trimming leaves is the text between the blanks. -/
theorem trims_iff {s t : String} : Trims s t ↔ trim s = t := by
  constructor
  · rintro ⟨htight, lead, trail, hlead, htrail, hs⟩
    rw [trim, hs, trimChars_between hlead htrail htight, String.ofList_toList]
  · rintro rfl
    refine ⟨?_, s.toList.takeWhile isBlank, (s.toList.dropWhile isBlank).rtakeWhile isBlank,
      fun _ => List.mem_takeWhile_imp, fun _ => List.mem_rtakeWhile_imp, ?_⟩
    · rw [trim, String.toList_ofList]
      exact tight_trimChars s.toList
    · rw [trim, String.toList_ofList, trimChars_eq, List.append_assoc,
        List.rdropWhile_append_rtakeWhile, List.takeWhile_append_dropWhile]

instance (s t : String) : Decidable (Trims s t) := decidable_of_iff _ trims_iff.symm

/-! ### Letters of any case -/

/-- The text is `none`, each of its letters a small or a capital one. -/
def ReadsNone (s : String) : Prop :=
  List.Forall₂ (fun c d => c = d ∨ c = d.toUpper) s.toList ['n', 'o', 'n', 'e']

/-- A capital letter is 32 before the small one. -/
theorem toUpper_toNat {d : Char} (hd : d.isLower) : d.toUpper.val.toNat + 32 = d.val.toNat := by
  simp only [Char.isLower, Bool.and_eq_true, decide_eq_true_eq, ge_iff_le] at hd
  have hstep : ('A'.val - 'a'.val).toNat = 2 ^ 32 - 32 := rfl
  have hbounds : 97 ≤ d.val.toNat ∧ d.val.toNat ≤ 122 := hd
  rw [Char.toUpper, dif_pos hd]
  simp only [UInt32.toNat_add, hstep]
  omega

theorem toLower_eq_iff {c d : Char} (hd : d.isLower) : c.toLower = d ↔ c = d ∨ c = d.toUpper := by
  have hupper := toUpper_toNat hd
  simp only [Char.isLower, Bool.and_eq_true, decide_eq_true_eq, ge_iff_le] at hd
  have hbounds : 97 ≤ d.val.toNat ∧ d.val.toNat ≤ 122 := hd
  have hstep : ('a'.val - 'A'.val).toNat = 32 := rfl
  simp only [Char.ext_iff, ← UInt32.toNat_inj, Char.toLower]
  split
  · next hc =>
    have hcapital : 65 ≤ c.val.toNat ∧ c.val.toNat ≤ 90 := hc
    simp only [UInt32.toNat_add, hstep]
    omega
  · next hc =>
    have hnone : ¬ (65 ≤ c.val.toNat ∧ c.val.toNat ≤ 90) := hc
    omega

theorem map_toLower_eq_iff : ∀ {cs ds : List Char}, (∀ d ∈ ds, d.isLower) →
    (cs.map Char.toLower = ds ↔ List.Forall₂ (fun c d => c = d ∨ c = d.toUpper) cs ds)
  | [], [], _ => by simp
  | [], _ :: _, _ => by simp
  | _ :: _, [], _ => by simp
  | c :: cs, d :: ds, h => by
    have hc := toLower_eq_iff (c := c) (h d List.mem_cons_self)
    have ih := @map_toLower_eq_iff cs ds fun d hd => h d (List.mem_cons_of_mem _ hd)
    rw [List.map_cons, List.cons.injEq, List.forall₂_cons, hc, ih]

theorem readsNone_iff {s : String} : ReadsNone s ↔ lowerAscii s = "none" := by
  have hsmall : ∀ d ∈ ['n', 'o', 'n', 'e'], d.isLower := by
    simp only [List.forall_mem_cons]
    exact ⟨rfl, rfl, rfl, rfl, nofun⟩
  rw [ReadsNone, ← map_toLower_eq_iff hsmall, ← String.toList_inj, lowerAscii, String.toList_ofList]
  rfl

end Text

namespace Policy

/-! ### Keys -/

/-- The key is this name between blanks, with at most one `keyStart` right before it. A name that
itself starts so has to have one more. -/
def Spells (key name : String) : Prop :=
  ∃ bare, Text.Trims key bare ∧
    (bare = keyStart ++ name ∨ bare = name ∧ ¬ keyStart.toList <+: name.toList)

theorem bareKey_eq (key : String) :
    bareKey key = if keyStart.toList <+: (Text.trim key).toList
      then String.ofList ((Text.trim key).toList.drop keyStart.toList.length) else Text.trim key := by
  rw [Text.trim, String.toList_ofList, bareKey]
  simp only [List.isPrefixOf_iff_prefix]
  split <;> rfl

theorem spells_iff {key name : String} : Spells key name ↔ bareKey key = name := by
  have hspells : Spells key name ↔ Text.trim key = keyStart ++ name ∨
      Text.trim key = name ∧ ¬ keyStart.toList <+: name.toList := by
    simp only [Spells, Text.trims_iff, exists_eq_left']
  rw [hspells, bareKey_eq]
  generalize Text.trim key = bare
  by_cases h : keyStart.toList <+: bare.toList
  · rw [if_pos h]
    obtain ⟨rest, hrest⟩ := h
    have hbare : bare = keyStart ++ String.ofList rest := by
      rw [← String.toList_inj, String.toList_append, String.toList_ofList, hrest]
    rw [← hrest, List.drop_left, hbare, String.append_right_inj]
    constructor
    · rintro (hname | ⟨rfl, hstart⟩)
      · exact hname
      · exact absurd ⟨_, (String.toList_append ..).symm⟩ hstart
    · exact Or.inl
  · rw [if_neg h]
    constructor
    · rintro (rfl | ⟨hname, -⟩)
      · exact absurd ⟨name.toList, (String.toList_append ..).symm⟩ h
      · exact hname
    · rintro rfl
      exact .inr ⟨rfl, h⟩

instance (key name : String) : Decidable (Spells key name) := decidable_of_iff _ spells_iff.symm

/-- Blanks around a key do not count. -/
theorem bareKey_of_trims {key bare : String} (h : Text.Trims key bare) :
    bareKey key = bareKey bare := by
  have hbare : Text.trim bare = bare := Text.trims_iff.1 ⟨h.1, [], [], by simp, by simp, by simp⟩
  rw [bareKey_eq, bareKey_eq, Text.trims_iff.1 h, hbare]

/-- One `keyStart` goes away, and a second one stays. -/
theorem bareKey_keyStart {name : String} (h : ∀ c ∈ name.toList.getLast?, Text.isBlank c = false) :
    bareKey (keyStart ++ name) = name := by
  refine spells_iff.1 ⟨keyStart ++ name, ⟨⟨?_, ?_⟩, [], [], by simp, by simp, by simp⟩, .inl rfl⟩
  · have hhead : (keyStart ++ name).toList.head? = some 'O' := by
      rw [String.toList_append, List.head?_append]
      rfl
    rw [hhead]
    rintro c ⟨⟩
    rfl
  · rw [String.toList_append, List.getLast?_append]
    cases hlast : name.toList.getLast? with
    | none =>
      rintro c ⟨⟩
      rfl
    | some c => simpa [hlast] using h

example : bareKey "\tOP_BACKEND_OP_BACKEND_ADD " = "OP_BACKEND_ADD" := by decide +kernel

end Policy

end HeteroNet
