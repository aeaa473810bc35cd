import HeteroNet.Proofs.Keys
import Mathlib.Data.List.Basic

/-
Which of many overrides decides. An override is for all kinds of operation or for one, and each
of the two levels is a variable of its own: a pair that counts stores into one of them, and no
pair ever clears one. So after a list of pairs a level holds what the last pair for it says, and
the backend of a kind is read off the two levels.
-/

namespace HeteroNet.Policy

/-! ### What a pair says -/

/-- The value of the pair is this backend between blanks, neither empty nor `none` in any letter
case. -/
def Names (pair : String × String) (id : BackendId) : Prop :=
  Text.Trims pair.2 id ∧ id ≠ "" ∧ ¬ Text.ReadsNone id

def Effective (pair : String × String) : Prop := ∃ id, Names pair id

/-- What an override is for: one kind, or all of them. -/
abbrev Scope := Option Kind

/-- The key of an override, less blanks and `keyStart`. -/
def Scope.key : Scope → String
  | none => allKey
  | some k => k.name

/-- The key is for some level. -/
def IsKey (key : String) : Prop := ∃ s : Scope, Spells key s.key

/-- The pair overrides the backend at this level. -/
def Sets (s : Scope) (pair : String × String) (id : BackendId) : Prop :=
  Spells pair.1 s.key ∧ Names pair id

/-- The last effective pair for a level names this backend. -/
def Says (s : Scope) (pairs : List (String × String)) (id : BackendId) : Prop :=
  ∃ before pair behind, pairs = before ++ pair :: behind ∧ Sets s pair id ∧
    ∀ later ∈ behind, ∀ id', ¬ Sets s later id'

/-- No effective pair is for this level. -/
def Silent (s : Scope) (pairs : List (String × String)) : Prop :=
  ∀ pair ∈ pairs, ∀ id, ¬ Sets s pair id

/-- The two lists have the same pairs, and those whose keys spell the same name in the same
order. -/
def Reordered (pairs pairs' : List (String × String)) : Prop :=
  ∀ name, pairs'.filter (Spells ·.1 name) = pairs.filter (Spells ·.1 name)

/-- Two neighbours whose keys spell different names may change places. -/
theorem Reordered.swap {a b : String × String} (h : bareKey a.1 ≠ bareKey b.1)
    (before behind : List (String × String)) :
    Reordered (before ++ a :: b :: behind) (before ++ b :: a :: behind) := by
  intro name
  rw [List.filter_append, List.filter_append]
  refine congrArg (before.filter (Spells ·.1 name) ++ ·) ?_
  by_cases ha : Spells a.1 name
  · have hb : ¬ Spells b.1 name := fun hb => h ((spells_iff.1 ha).trans (spells_iff.1 hb).symm)
    simp [ha, hb]
  · simp [List.filter_cons, ha]

/-- What a pair stores at a level. -/
def told? (s : Scope) (pair : String × String) : Option BackendId :=
  if bareKey pair.1 = s.key then value? pair.2 else none

theorem value?_eq_some {pair : String × String} {id : BackendId} :
    value? pair.2 = some id ↔ Names pair id := by
  have hnone : Text.lowerAscii "none" = "none" := by decide
  simp only [value?, Text.equalIgnoringCase, hnone, Option.ite_none_left_eq_some, Bool.or_eq_true,
    String.isEmpty_iff, beq_iff_eq, not_or, Option.some.injEq, Names, Text.trims_iff,
    Text.readsNone_iff]
  constructor
  · rintro ⟨⟨hempty, hunset⟩, rfl⟩
    exact ⟨rfl, hempty, hunset⟩
  · rintro ⟨rfl, hempty, hunset⟩
    exact ⟨⟨hempty, hunset⟩, rfl⟩

theorem effective_iff {pair : String × String} : Effective pair ↔ (value? pair.2).isSome := by
  simp only [Effective, ← value?_eq_some, Option.isSome_iff_exists]

instance : DecidablePred Effective := fun _ => decidable_of_iff _ effective_iff.symm

theorem told?_eq_some {s : Scope} {pair : String × String} {id : BackendId} :
    told? s pair = some id ↔ Sets s pair id := by
  rw [told?, Option.ite_none_right_eq_some, value?_eq_some, Sets, spells_iff]

theorem told?_eq_none {s : Scope} {pair : String × String} :
    told? s pair = none ↔ ∀ id, ¬ Sets s pair id := by
  simp only [Option.eq_none_iff_forall_ne_some, ne_eq, told?_eq_some]

/-- What the last pair for a level says. -/
def lastValue (s : Scope) (pairs : List (String × String)) : Option BackendId :=
  (pairs.filterMap (told? s)).getLast?

theorem says_iff {s : Scope} {pairs : List (String × String)} {id : BackendId} :
    Says s pairs id ↔ lastValue s pairs = some id := by
  rw [lastValue, List.getLast?_eq_some_iff]
  constructor
  · rintro ⟨before, pair, behind, rfl, hsets, hlater⟩
    have hbehind : behind.filterMap (told? s) = [] :=
      List.filterMap_eq_nil_iff.2 fun later h => told?_eq_none.2 (hlater later h)
    refine ⟨before.filterMap (told? s), ?_⟩
    rw [List.filterMap_append, List.filterMap_cons_some (told?_eq_some.2 hsets), hbehind]
  · rintro ⟨ids, hids⟩
    obtain ⟨before, rest, rfl, -, hrest⟩ := List.filterMap_eq_append_iff.1 hids
    obtain ⟨between, pair, behind, rfl, -, htold, hbehind⟩ := List.filterMap_eq_cons_iff.1 hrest
    refine ⟨before ++ between, pair, behind, (List.append_assoc ..).symm, told?_eq_some.1 htold, ?_⟩
    exact fun later h => told?_eq_none.1 (List.filterMap_eq_nil_iff.1 hbehind later h)

theorem silent_iff {s : Scope} {pairs : List (String × String)} :
    Silent s pairs ↔ lastValue s pairs = none := by
  simp only [lastValue, List.getLast?_eq_none_iff, List.filterMap_eq_nil_iff, told?_eq_none, Silent]

instance (s : Scope) (pairs : List (String × String)) (id : BackendId) :
    Decidable (Says s pairs id) := decidable_of_iff _ says_iff.symm

instance (s : Scope) (pairs : List (String × String)) : Decidable (Silent s pairs) :=
  decidable_of_iff _ silent_iff.symm

theorem name_ne_allKey (k : Kind) : k.name ≠ allKey := by cases k <;> decide

theorem ofName?_eq_some {key : String} {k : Kind} :
    Kind.ofName? key = some k ↔ key = k.name := by
  constructor
  · intro h
    have : k.name = key := by simpa using List.find?_some h
    exact this.symm
  · rintro rfl
    exact Kind.ofName?_name k

theorem Scope.key_inj {s s' : Scope} : s.key = s'.key ↔ s = s' := by
  refine ⟨fun h => ?_, congrArg key⟩
  cases s <;> cases s'
  · rfl
  · exact absurd h.symm (name_ne_allKey _)
  · exact absurd h (name_ne_allKey _)
  · next k k' =>
    exact ((Kind.ofName?_name k).symm.trans (ofName?_eq_some.2 h))

theorem isKey_iff {key : String} : IsKey key ↔ bareKey key ∈ allKey :: Kind.all.map Kind.name := by
  simp only [IsKey, spells_iff, List.mem_cons, List.mem_map]
  constructor
  · rintro ⟨_ | k, hkey⟩
    · exact .inl hkey
    · exact .inr ⟨k, Kind.mem_all k, hkey.symm⟩
  · rintro (hkey | ⟨k, -, hkey⟩)
    · exact ⟨none, hkey⟩
    · exact ⟨some k, hkey.symm⟩

instance : DecidablePred IsKey := fun _ => decidable_of_iff _ isKey_iff.symm

/-! ### One pair -/

/-- What a policy holds at a level. -/
def override (p : Policy) : Scope → Option BackendId
  | none => p.all
  | some k => p.perKind.lookup k

theorem override_withAll (p : Policy) (id : BackendId) (s : Scope) :
    (p.withAll id).override s = if s = none then some id else p.override s := by
  cases s <;> rfl

/-- Dropping the entries of another key changes nothing for this one. -/
theorem lookup_filter_ne {k k' : Kind} (h : k' ≠ k) :
    ∀ l : List (Kind × BackendId), (l.filter (·.1 != k)).lookup k' = l.lookup k'
  | [] => rfl
  | (k₀, id) :: l => by
    have ih := lookup_filter_ne h l
    by_cases hk₀ : k₀ = k
    · subst hk₀
      rw [List.filter_cons_of_neg (by simp), ih, List.lookup_cons, beq_false_of_ne h]
    · rw [List.filter_cons_of_pos (by simpa using hk₀), List.lookup_cons, List.lookup_cons, ih]

theorem override_withKind (p : Policy) (k : Kind) (id : BackendId) (s : Scope) :
    (p.withKind k id).override s = if s = some k then some id else p.override s := by
  cases s with
  | none => rfl
  | some k' =>
    rw [override, withKind, List.lookup_cons]
    by_cases hk : k' = k
    · subst hk
      simp
    · rw [beq_false_of_ne hk, if_neg (by simpa using hk)]
      exact lookup_filter_ne hk p.perKind

/-- A pair stores its value at the level it is for and leaves the others. -/
theorem override_addPair (p : Policy) (pair : String × String) (s : Scope) :
    (p.addPair pair).override s = (told? s pair).or (p.override s) := by
  rw [addPair, told?]
  cases value? pair.2 with
  | none => rw [ite_self, Option.none_or]
  | some id =>
    have hstored (s' : Scope) (hkey : bareKey pair.1 = s'.key) :
        (if s = s' then some id else p.override s)
          = (if bareKey pair.1 = s.key then some id else none).or (p.override s) := by
      rw [hkey, if_congr (Scope.key_inj.trans eq_comm) rfl rfl]
      split <;> rfl
    by_cases hall : bareKey pair.1 = allKey
    · rw [← hstored none hall, ← override_withAll]
      simp only [hall, beq_self_eq_true, if_true]
    · have hbeq : (bareKey pair.1 == allKey) = false := by simpa using hall
      simp only [hbeq, Bool.false_eq_true, if_false]
      cases hname : Kind.ofName? (bareKey pair.1) with
      | none =>
        have hother : bareKey pair.1 ≠ s.key := fun hkey => by
          cases s with
          | none => exact hall hkey
          | some k => rw [ofName?_eq_some.2 hkey] at hname; cases hname
        rw [if_neg hother, Option.none_or]
      | some k =>
        rw [← hstored (some k) (ofName?_eq_some.1 hname), ← override_withKind]

theorem default_addPair (p : Policy) (pair : String × String) :
    (p.addPair pair).default = p.default := by
  rw [addPair]
  split
  · rfl
  · split
    · rfl
    · split <;> rfl

/-! ### All pairs -/

theorem lastValue_cons (s : Scope) (pair : String × String) (pairs : List (String × String)) :
    lastValue s (pair :: pairs) = (lastValue s pairs).or (told? s pair) := by
  rw [lastValue, lastValue, List.filterMap_cons]
  cases told? s pair with
  | none => rw [Option.or_none]
  | some id =>
    rw [List.getLast?_cons]
    cases (pairs.filterMap (told? s)).getLast? <;> rfl

/-- After all pairs a level holds what the last pair for it says, or what it held before. -/
theorem override_foldl (s : Scope) : ∀ (pairs : List (String × String)) (p : Policy),
    (pairs.foldl addPair p).override s = (lastValue s pairs).or (p.override s)
  | [], p => rfl
  | pair :: pairs, p => by
    rw [List.foldl_cons, override_foldl s pairs, override_addPair, lastValue_cons, Option.or_assoc]

theorem default_foldl : ∀ (pairs : List (String × String)) (p : Policy),
    (pairs.foldl addPair p).default = p.default
  | [], _ => rfl
  | pair :: pairs, p => by rw [List.foldl_cons, default_foldl pairs, default_addPair]

theorem backendFor_ofPairs (pairs : List (String × String)) (k : Kind) :
    (ofPairs pairs).backendFor k
      = ((lastValue none pairs).or (lastValue (some k) pairs)).getD ({} : Policy).default := by
  have hlevel (s : Scope) : (ofPairs pairs).override s = lastValue s pairs := by
    rw [ofPairs, override_foldl]
    cases s <;> exact Option.or_none
  have hdefault : (ofPairs pairs).default = ({} : Policy).default := default_foldl pairs {}
  rw [← hlevel none, ← hlevel (some k), ← hdefault]
  rfl

/-- Lists that agree on what each level is told last make the same choices. -/
theorem backendFor_congr {pairs pairs' : List (String × String)}
    (h : ∀ s, lastValue s pairs' = lastValue s pairs) (k : Kind) :
    (ofPairs pairs').backendFor k = (ofPairs pairs).backendFor k := by
  rw [backendFor_ofPairs, backendFor_ofPairs, h, h]

/-- What is for no level can be left out. -/
theorem lastValue_filter {pairs : List (String × String)} {keep : String × String → Bool}
    (s : Scope) (h : ∀ pair ∈ pairs, keep pair = false → told? s pair = none) :
    lastValue s (pairs.filter keep) = lastValue s pairs := by
  rw [lastValue, lastValue, List.filterMap_filter]
  refine congrArg List.getLast? (List.filterMap_congr fun pair hpair => ?_)
  cases hkeep : keep pair with
  | true => exact if_pos rfl
  | false => exact (h pair hpair hkeep).symm

/-- Only pairs whose keys spell one name speak to a level. -/
theorem lastValue_reordered {pairs pairs' : List (String × String)} (h : Reordered pairs pairs')
    (s : Scope) : lastValue s pairs' = lastValue s pairs := by
  have hkey (l : List (String × String)) :
      l.filterMap (told? s) = (l.filter (Spells ·.1 s.key)).filterMap (value? ·.2) := by
    rw [List.filterMap_filter]
    refine List.filterMap_congr fun pair _ => ?_
    simp only [told?, spells_iff, decide_eq_true_eq]
  rw [lastValue, lastValue, hkey, hkey, h]

/-- **Precedence of overrides.** The backend of a kind is what the last effective pair for all
kinds says, else what the last effective pair for this kind says, else the default. Pairs that
are not effective or whose key spells no level can be left out, and pairs whose keys spell different
names can change places, and every kind keeps its backend. -/
theorem ofPairs_precedence (pairs : List (String × String)) :
    (∀ k,
      (∀ id, Says none pairs id → (ofPairs pairs).backendFor k = id) ∧
      (Silent none pairs →
        (∀ id, Says (some k) pairs id → (ofPairs pairs).backendFor k = id) ∧
        (Silent (some k) pairs → (ofPairs pairs).backendFor k = ({} : Policy).default))) ∧
    (∀ keep : String × String → Bool,
      (∀ pair ∈ pairs, keep pair = false → ¬ Effective pair ∨ ¬ IsKey pair.1) →
      ∀ k, (ofPairs (pairs.filter keep)).backendFor k = (ofPairs pairs).backendFor k) ∧
    (∀ pairs', Reordered pairs pairs' →
      ∀ k, (ofPairs pairs').backendFor k = (ofPairs pairs).backendFor k) := by
  refine ⟨fun k => ?_, fun keep hkeep => ?_, fun pairs' h => ?_⟩
  · simp only [backendFor_ofPairs, says_iff, silent_iff]
    refine ⟨fun id hall => ?_, fun hall => ⟨fun id hkind => ?_, fun hkind => ?_⟩⟩
    · rw [hall, Option.some_or, Option.getD_some]
    · rw [hall, Option.none_or, hkind, Option.getD_some]
    · rw [hall, Option.none_or, hkind, Option.getD_none]
  · refine backendFor_congr fun s => lastValue_filter s fun pair hpair hdropped => ?_
    rw [told?_eq_none]
    rintro id ⟨hspells, hnames⟩
    rcases hkeep pair hpair hdropped with hunset | hunknown
    · exact hunset ⟨id, hnames⟩
    · exact hunknown ⟨s, hspells⟩
  · exact backendFor_congr (lastValue_reordered h)

/-- Overrides of three kinds, then what leaves no trace: a key with two prefixes, an unset value
and a key in small letters. -/
def addOverrides : List (String × String) :=
  [("OP_BACKEND_ADD", " ref "), (" SOFTMAX", "cpu"), ("\tOP_BACKEND_CONV_2D ", "ref"),
    ("OP_BACKEND_OP_BACKEND_CONV_2D", "cpu"), ("ALLOPS", " None "), ("add", "gpu")]

/-- Each of three kinds has its backend and the others have the default; the last three pairs can
go, the first two change places, and one pair for all kinds decides for all. -/
theorem ofPairs_precedence_add :
    (ofPairs addOverrides).backendFor .add = "ref" ∧
    (ofPairs addOverrides).backendFor .softmax = "cpu" ∧
    (ofPairs addOverrides).backendFor .conv2d = "ref" ∧
    (ofPairs addOverrides).backendFor .maxPool2d = "gpu" ∧
    (∀ k, (ofPairs (addOverrides.filter (· ∉ addOverrides.drop 3))).backendFor k
      = (ofPairs addOverrides).backendFor k) ∧
    (∀ k, (ofPairs ((" SOFTMAX", "cpu") :: ("OP_BACKEND_ADD", " ref ")
      :: addOverrides.drop 2)).backendFor k = (ofPairs addOverrides).backendFor k) ∧
    ∀ k, (ofPairs (addOverrides ++ [("ALLOPS\n", "cpu")])).backendFor k = "cpu" := by
  obtain ⟨hlast, hfilter, hswap⟩ := ofPairs_precedence addOverrides
  have hall : Silent none addOverrides := by decide +kernel
  have hdropped : ∀ pair ∈ addOverrides, decide (pair ∉ addOverrides.drop 3) = false →
      ¬ Effective pair ∨ ¬ IsKey pair.1 := by decide +kernel
  have hmoved : Reordered addOverrides
      ((" SOFTMAX", "cpu") :: ("OP_BACKEND_ADD", " ref ") :: addOverrides.drop 2) :=
    @Reordered.swap ("OP_BACKEND_ADD", " ref ") (" SOFTMAX", "cpu") (by decide +kernel) [] _
  refine ⟨((hlast .add).2 hall).1 _ (by decide +kernel),
    ((hlast .softmax).2 hall).1 _ (by decide +kernel),
    ((hlast .conv2d).2 hall).1 _ (by decide +kernel),
    ((hlast .maxPool2d).2 hall).2 (by decide +kernel),
    hfilter (fun pair => decide (pair ∉ addOverrides.drop 3)) hdropped,
    hswap _ hmoved,
    fun k => ((ofPairs_precedence _).1 k).1 _ (by decide +kernel)⟩

end HeteroNet.Policy
