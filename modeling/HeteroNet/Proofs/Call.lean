import HeteroNet.Model
import Mathlib.Data.List.Forall2
import Mathlib.Order.Defs.Unbundled

/-
Calls that may fail and that change a state: editing a model, a task on the machine, assembling a
plan. All of them keep the state they reach when they fail. What such a call does is its
`outcome`, and the outcome of steps put together is read off the outcomes of the steps.

The inversion lemmas (`outcome_bind_ok` and its kin) open a call that is known to have returned.
The loop lemmas carry an invariant through `forM` and `foldlM`. `Ends` says of a call both how it
returns and how it fails, `Returns` only the first. `Keeps` is for what a call does
not touch in either case.
-/

namespace HeteroNet

section

variable {ε σ α β γ : Type}

/-! ## Calls without a state -/

theorem bind_eq_ok {x : Except ε α} {f : α → Except ε β} {b : β} :
    (x >>= f) = .ok b ↔ ∃ a, x = .ok a ∧ f a = .ok b := by
  cases x with
  | error e => simp [bind, Except.bind]
  | ok a => simp [bind, Except.bind]

/-- A check and what follows it. -/
theorem check_bind_eq_ok {x : Except ε Unit} {y : Except ε α} {b : α} :
    (x >>= fun _ => y) = .ok b ↔ x = .ok () ∧ y = .ok b := by
  rw [bind_eq_ok]
  exact ⟨fun ⟨_, hx, hy⟩ => ⟨hx, hy⟩, fun ⟨hx, hy⟩ => ⟨(), hx, hy⟩⟩

theorem bind_eq_error {x : Except ε α} {f : α → Except ε β} {e : ε} :
    (x >>= f) = .error e ↔ x = .error e ∨ ∃ a, x = .ok a ∧ f a = .error e := by
  cases x with
  | error e => simp [bind, Except.bind]
  | ok a => simp [bind, Except.bind]

theorem map_eq_ok {x : Except ε α} {f : α → β} {b : β} :
    f <$> x = .ok b ↔ ∃ a, x = .ok a ∧ f a = b := by
  cases x with
  | error e => simp [Functor.map, Except.map]
  | ok a => simp [Functor.map, Except.map]

theorem pure_eq_ok {a b : α} : (pure a : Except ε α) = .ok b ↔ a = b := by
  simp [pure, Except.pure]

theorem pure_ne_error {a : α} {e : ε} : (pure a : Except ε α) ≠ .error e := by
  simp [pure, Except.pure]

theorem throw_eq_error {e e' : ε} : (throw e : Except ε α) = .error e' ↔ e = e' := by
  simp [throw, throwThe, MonadExceptOf.throw]

theorem throw_ne_ok {e : ε} {b : α} : (throw e : Except ε α) ≠ .ok b := by
  simp [throw, throwThe, MonadExceptOf.throw]

theorem discard_eq_ok {x : Except ε α} : discard x = .ok () ↔ ∃ a, x = .ok a := by
  cases x with
  | error e => simp [discard, Functor.mapConst, Except.map]
  | ok a => simp [discard, Functor.mapConst, Except.map]

theorem discard_eq_error {x : Except ε α} {e : ε} : discard x = .error e ↔ x = .error e := by
  cases x with
  | error e => simp [discard, Functor.mapConst, Except.map]
  | ok a => simp [discard, Functor.mapConst, Except.map]

/-- A check whose failure is an error of a larger kind succeeds with what the check gives. -/
theorem lift_eq_ok {x : Except Error α} {a : α} :
    (liftM x : Except Failure α) = .ok a ↔ x = .ok a := by
  cases x with
  | error e => simp [liftM, monadLift, MonadLift.monadLift, Except.mapError]
  | ok b => simp [liftM, monadLift, MonadLift.monadLift, Except.mapError]

theorem forM_eq_ok {f : α → Except ε Unit} :
    ∀ {l : List α}, l.forM f = .ok () ↔ ∀ a ∈ l, f a = .ok ()
  | [] => by simp [pure, Except.pure]
  | a :: l => by
    have ih := forM_eq_ok (f := f) (l := l)
    simp only [List.forM_eq_forM] at ih
    simp only [List.forM_eq_forM, List.forM_cons, bind_eq_ok, ih, List.mem_cons, forall_eq_or_imp]
    constructor
    · rintro ⟨⟨⟩, ha, hl⟩
      exact ⟨ha, hl⟩
    · rintro ⟨ha, hl⟩
      exact ⟨(), ha, hl⟩

/-- A loop that fails does so at one of the entries. -/
theorem forM_eq_error {f : α → Except ε Unit} {e : ε} :
    ∀ {l : List α}, l.forM f = .error e → ∃ a ∈ l, f a = .error e
  | [], h => absurd h pure_ne_error
  | a :: l, h => by
    rw [List.forM_eq_forM, List.forM_cons, ← List.forM_eq_forM, bind_eq_error] at h
    rcases h with ha | ⟨_, -, hl⟩
    · exact ⟨a, List.mem_cons_self, ha⟩
    · obtain ⟨b, hb, he⟩ := forM_eq_error hl
      exact ⟨b, List.mem_cons_of_mem a hb, he⟩

theorem mapM_eq_ok {f : α → Except ε β} :
    ∀ {l : List α} {bs : List β}, l.mapM f = .ok bs ↔ List.Forall₂ (fun a b => f a = .ok b) l bs
  | [], bs => by
    simp only [List.mapM_nil, pure_eq_ok, List.forall₂_nil_left_iff]
    exact eq_comm
  | a :: l, bs => by
    simp only [List.mapM_cons, bind_eq_ok, pure_eq_ok, mapM_eq_ok, List.forall₂_cons_left_iff]
    constructor
    · rintro ⟨b, hb, bs', hbs, rfl⟩
      exact ⟨b, bs', hb, hbs, rfl⟩
    · rintro ⟨b, bs', hb, hbs, rfl⟩
      exact ⟨b, hb, bs', hbs, rfl⟩

/-! ## Outcomes -/

/-- The answer of a call and the state it leaves. -/
def outcome (t : ExceptT ε (StateM σ) α) (s : σ) : Except ε α × σ := StateT.run (ExceptT.run t) s

variable {s s' : σ}

/-- A call is known by its answer and the state it leaves. -/
theorem outcome_eq {r : α × σ} {a : α} (h : r.1 = a) : r = (a, r.2) := by
  rw [← h]

@[simp] theorem outcome_pure (a : α) (s : σ) :
    outcome (pure a : ExceptT ε (StateM σ) α) s = (.ok a, s) := rfl

@[simp] theorem outcome_get (s : σ) : outcome (get : ExceptT ε (StateM σ) σ) s = (.ok s, s) := rfl

@[simp] theorem outcome_set (s s' : σ) :
    outcome (set s' : ExceptT ε (StateM σ) PUnit) s = (.ok ⟨⟩, s') := rfl

@[simp] theorem outcome_modify (f : σ → σ) (s : σ) :
    outcome (modify f : ExceptT ε (StateM σ) PUnit) s = (.ok ⟨⟩, f s) := rfl

@[simp] theorem outcome_throw (e : ε) (s : σ) :
    outcome (throw e : ExceptT ε (StateM σ) α) s = (.error e, s) := rfl

@[simp] theorem outcome_check (x : Except ε α) (s : σ) :
    outcome (liftM x : ExceptT ε (StateM σ) α) s = (x, s) := rfl

theorem outcome_check_of_ok {x : Except ε α} {a : α} (h : x = .ok a) (s : σ) :
    outcome (liftM x : ExceptT ε (StateM σ) α) s = (.ok a, s) := by
  rw [outcome_check, h]

@[simp] theorem outcome_lift (x : Except Error α) (s : σ) :
    outcome (liftM x : ExceptT Failure (StateM σ) α) s = (liftM x, s) := rfl

theorem outcome_lift_of_ok {x : Except Error α} {a : α} (h : x = .ok a) (s : σ) :
    outcome (liftM x : ExceptT Failure (StateM σ) α) s = (.ok a, s) := by
  rw [outcome_lift, lift_eq_ok.2 h]

theorem outcome_bind (x : ExceptT ε (StateM σ) α) (f : α → ExceptT ε (StateM σ) β) (s : σ) :
    outcome (x >>= f) s =
      match outcome x s with
      | (.ok a, s') => outcome (f a) s'
      | (.error e, s') => (.error e, s') := by
  simp only [outcome, ExceptT.run_bind, StateT.run_bind]
  obtain ⟨r, s'⟩ := StateT.run x.run s
  cases r <;> rfl

theorem outcome_map (x : ExceptT ε (StateM σ) α) (f : α → β) (s : σ) :
    outcome (f <$> x) s = ((outcome x s).1.map f, (outcome x s).2) := by
  rw [map_eq_pure_bind, outcome_bind]
  obtain ⟨r, s'⟩ := outcome x s
  cases r <;> rfl

theorem outcome_discard (x : ExceptT ε (StateM σ) α) (s : σ) :
    outcome (discard x) s = ((outcome x s).1.map fun _ => (), (outcome x s).2) :=
  outcome_map x _ s

theorem outcome_bind_ok {x : ExceptT ε (StateM σ) α} {f : α → ExceptT ε (StateM σ) β} {b : β} :
    outcome (x >>= f) s = (.ok b, s') ↔
      ∃ a s₁, outcome x s = (.ok a, s₁) ∧ outcome (f a) s₁ = (.ok b, s') := by
  rw [outcome_bind]
  obtain ⟨r, s₁⟩ := outcome x s
  cases r <;> simp

theorem outcome_bind_of_ok {x : ExceptT ε (StateM σ) α} {f : α → ExceptT ε (StateM σ) β} {a : α}
    (h : outcome x s = (.ok a, s')) : outcome (x >>= f) s = outcome (f a) s' := by
  rw [outcome_bind, h]

theorem outcome_bind_error {x : ExceptT ε (StateM σ) α} {f : α → ExceptT ε (StateM σ) β} {e : ε} :
    outcome (x >>= f) s = (.error e, s') ↔
      outcome x s = (.error e, s') ∨
        ∃ a s₁, outcome x s = (.ok a, s₁) ∧ outcome (f a) s₁ = (.error e, s') := by
  rw [outcome_bind]
  obtain ⟨r, s₁⟩ := outcome x s
  cases r <;> simp

/-! ## Loops -/

/-- An invariant of a loop that succeeds: `I done s` holds of what was gone through and of the
state. -/
theorem forM_invariant {f : α → ExceptT ε (StateM σ) PUnit} (I : List α → σ → Prop)
    (step : ∀ done a s s', I done s → outcome (f a) s = (.ok ⟨⟩, s') → I (done ++ [a]) s') :
    ∀ {l : List α} (done : List α) {s s' : σ}, I done s → outcome (l.forM f) s = (.ok ⟨⟩, s') →
      I (done ++ l) s'
  | [], done, s, s', hI, h => by
    simp only [List.forM_eq_forM, List.forM_nil, outcome_pure, Prod.mk.injEq, true_and] at h
    subst h
    simpa using hI
  | a :: l, done, s, s', hI, h => by
    simp only [List.forM_eq_forM, List.forM_cons, outcome_bind_ok] at h
    obtain ⟨_, s₁, h₁, h₂⟩ := h
    rw [← List.forM_eq_forM] at h₂
    simpa using forM_invariant I step _ (step _ _ _ _ hI h₁) h₂

/-- A fold succeeds if every step does from where the steps before it lead. -/
theorem foldlM_total {f : β → α → ExceptT ε (StateM σ) β} (I : List α → β → σ → Prop) {l : List α}
    (step : ∀ done a b s, a ∈ l → I done b s →
      ∃ b' s', outcome (f b a) s = (.ok b', s') ∧ I (done ++ [a]) b' s') {b : β} {s : σ}
    (hI : I [] b s) : ∃ b' s', outcome (l.foldlM f b) s = (.ok b', s') ∧ I l b' s' := by
  suffices h : ∀ rest done b s, (∀ a ∈ rest, a ∈ l) → I done b s →
      ∃ b' s', outcome (rest.foldlM f b) s = (.ok b', s') ∧ I (done ++ rest) b' s' by
    simpa using h l [] b s (fun _ ha => ha) hI
  intro rest
  induction rest with
  | nil => exact fun done b s _ hI => ⟨b, s, rfl, by simpa using hI⟩
  | cons a rest ih =>
    intro done b s hsub hI
    obtain ⟨b₁, s₁, h₁, hI₁⟩ := step done a b s (hsub a (by simp)) hI
    obtain ⟨b₂, s₂, h₂, hI₂⟩ := ih (done ++ [a]) b₁ s₁ (fun x hx => hsub x (by simp [hx])) hI₁
    refine ⟨b₂, s₂, ?_, by simpa using hI₂⟩
    rw [List.foldlM_cons, outcome_bind_of_ok h₁, h₂]

/-! ## How a call ends -/

/-- A call that returned did so as `post` says, one that failed as `err` says. -/
def Ends (r : Except ε α × σ) (post : α → σ → Prop) (err : ε → σ → Prop) : Prop :=
  match r with
  | (.ok a, s) => post a s
  | (.error e, s) => err e s

namespace Ends

variable {post post' : α → σ → Prop} {err err' : ε → σ → Prop}

theorem mono {r : Except ε α × σ} (h : Ends r post err) (hpost : ∀ a s, post a s → post' a s)
    (herr : ∀ e s, err e s → err' e s) : Ends r post' err' := by
  obtain ⟨r, s⟩ := r
  cases r with
  | ok a => exact hpost a s h
  | error e => exact herr e s h

theorem and {r : Except ε α × σ} (h : Ends r post err) (h' : Ends r post' err') :
    Ends r (fun a s => post a s ∧ post' a s) fun e s => err e s ∧ err' e s := by
  obtain ⟨r, s⟩ := r
  cases r with
  | ok a => exact ⟨h, h'⟩
  | error e => exact ⟨h, h'⟩

/-- A call that cannot fail returns. -/
theorem exists_ok {r : Except ε α × σ} (h : Ends r post fun _ _ => False) :
    ∃ a s, r = (.ok a, s) ∧ post a s := by
  obtain ⟨r, s⟩ := r
  cases r with
  | ok a => exact ⟨a, s, rfl, h⟩
  | error e => exact h.elim

/-- The second of two calls starts where the first one ends. -/
theorem bind {x : ExceptT ε (StateM σ) α} {f : α → ExceptT ε (StateM σ) β}
    {post : β → σ → Prop} (h : Ends (outcome x s) (fun a s' => Ends (outcome (f a) s') post err) err) :
    Ends (outcome (x >>= f) s) post err := by
  rw [outcome_bind]
  revert h
  obtain ⟨r, s'⟩ := outcome x s
  cases r <;> exact id

/-- Two calls that begin alike end alike if they do from where the first part leads. -/
theorem bind_congr {x : ExceptT ε (StateM σ) α} {f g : α → ExceptT ε (StateM σ) β}
    (h : Ends (outcome x s) post err)
    (hfg : ∀ a s', post a s' → outcome (f a) s' = outcome (g a) s') :
    outcome (x >>= f) s = outcome (x >>= g) s := by
  rw [outcome_bind, outcome_bind]
  revert h
  obtain ⟨r, s'⟩ := outcome x s
  cases r with
  | ok a => exact hfg a s'
  | error e => exact fun _ => rfl

theorem lift {x : Except Error α} {post : α → σ → Prop} {err : Failure → σ → Prop}
    (hok : ∀ a, x = .ok a → post a s) (herr : ∀ e, x = .error e → err (.error e) s) :
    Ends (outcome (liftM x : ExceptT Failure (StateM σ) α) s) post err := by
  cases x with
  | ok a => exact hok a rfl
  | error e => exact herr e rfl

theorem check {x : Except ε α} (hok : ∀ a, x = .ok a → post a s)
    (herr : ∀ e, x = .error e → err e s) :
    Ends (outcome (liftM x : ExceptT ε (StateM σ) α) s) post err := by
  cases x with
  | ok a => exact hok a rfl
  | error e => exact herr e rfl

/-- An invariant of a loop, which holds of what was gone through and of the state. -/
theorem forM {f : α → ExceptT ε (StateM σ) PUnit} (I : List α → σ → Prop) {l : List α}
    (step : ∀ done a rest s, l = done ++ a :: rest → I done s →
      Ends (outcome (f a) s) (fun _ s' => I (done ++ [a]) s') err)
    (h : I [] s) : Ends (outcome (l.forM f) s) (fun _ s' => I l s') err := by
  suffices H : ∀ rest done s, l = done ++ rest → I done s →
      Ends (outcome (rest.forM f) s) (fun _ s' => I l s') err from H l [] s rfl h
  intro rest
  induction rest with
  | nil =>
    intro done s hl hI
    rw [List.append_nil] at hl
    exact hl ▸ hI
  | cons a rest ih =>
    intro done s hl hI
    rw [List.forM_eq_forM, List.forM_cons, ← List.forM_eq_forM]
    refine bind ((step done a rest s hl hI).mono (fun _ s' hI' => ?_) fun _ _ he => he)
    exact ih (done ++ [a]) s' (by simp [hl]) hI'

/-- The same for a loop that collects answers. -/
theorem mapM {f : α → ExceptT ε (StateM σ) β} (I : List α → List β → σ → Prop) {l : List α}
    (step : ∀ done bs a rest s, l = done ++ a :: rest → I done bs s →
      Ends (outcome (f a) s) (fun b s' => I (done ++ [a]) (bs ++ [b]) s') err)
    (h : I [] [] s) : Ends (outcome (l.mapM f) s) (fun bs s' => I l bs s') err := by
  suffices H : ∀ rest done bs s, l = done ++ rest → I done bs s →
      Ends (outcome (rest.mapM f) s) (fun bs' s' => I l (bs ++ bs') s') err from
    H l [] [] s rfl h
  intro rest
  induction rest with
  | nil =>
    intro done bs s hl hI
    rw [List.append_nil] at hl
    rw [List.mapM_nil]
    change I l (bs ++ []) s
    rw [List.append_nil, hl]
    exact hI
  | cons a rest ih =>
    intro done bs s hl hI
    rw [List.mapM_cons]
    refine bind ((step done bs a rest s hl hI).mono (fun b s' hI' => ?_) fun _ _ he => he)
    refine bind ((ih (done ++ [a]) (bs ++ [b]) s' (by simp [hl]) hI').mono (fun bs' s'' h => ?_)
      fun _ _ he => he)
    change I l (bs ++ b :: bs') s''
    rwa [List.append_assoc] at h

/-- The same for a loop that carries a value along. -/
theorem foldlM {f : β → α → ExceptT ε (StateM σ) β} (I : List α → β → σ → Prop) {l : List α}
    (step : ∀ done a rest b s, l = done ++ a :: rest → I done b s →
      Ends (outcome (f b a) s) (fun b' s' => I (done ++ [a]) b' s') err) {b : β}
    (h : I [] b s) : Ends (outcome (l.foldlM f b) s) (fun b' s' => I l b' s') err := by
  suffices H : ∀ rest done b s, l = done ++ rest → I done b s →
      Ends (outcome (rest.foldlM f b) s) (fun b' s' => I l b' s') err from H l [] b s rfl h
  intro rest
  induction rest with
  | nil =>
    intro done b s hl hI
    rw [List.append_nil] at hl
    exact hl ▸ hI
  | cons a rest ih =>
    intro done b s hl hI
    rw [List.foldlM_cons]
    refine bind ((step done a rest b s hl hI).mono (fun b' s' hI' => ?_) fun _ _ he => he)
    exact ih (done ++ [a]) b' s' (by simp [hl]) hI'

end Ends

/-- If the call returned, it did so as `post` says. Nothing is said of a call that failed. -/
def Returns (r : Except ε α × σ) (post : α → σ → Prop) : Prop := Ends r post fun _ _ => True

namespace Returns

variable {post post' : α → σ → Prop}

theorem any (r : Except ε α × σ) : Returns r fun _ _ => True := by
  obtain ⟨r, s⟩ := r
  cases r <;> exact trivial

theorem mono {r : Except ε α × σ} (h : Returns r post) (hpost : ∀ a s, post a s → post' a s) :
    Returns r post' :=
  Ends.mono h hpost fun _ _ _ => trivial

theorem of_eq {r : Except ε α × σ} {a : α} (h : Returns r post) (hr : r = (.ok a, s)) :
    post a s := by
  rw [hr] at h
  exact h

/-- The second of two calls starts where the first one returned. -/
theorem bind {x : ExceptT ε (StateM σ) α} {f : α → ExceptT ε (StateM σ) β} {post' : β → σ → Prop}
    (hx : Returns (outcome x s) post) (hf : ∀ a s', post a s' → Returns (outcome (f a) s') post') :
    Returns (outcome (x >>= f) s) post' :=
  Ends.bind (Ends.mono hx hf fun _ _ _ => trivial)

theorem check {x : Except ε α} (h : ∀ a, x = .ok a → post a s) :
    Returns (outcome (liftM x : ExceptT ε (StateM σ) α) s) post :=
  Ends.check h fun _ _ => trivial

theorem lift {x : Except Error α} {post : α → σ → Prop} (h : ∀ a, x = .ok a → post a s) :
    Returns (outcome (liftM x : ExceptT Failure (StateM σ) α) s) post :=
  Ends.lift h fun _ _ => trivial

end Returns

/-- A loop succeeds if every step does from where the steps before it lead. -/
theorem forM_total {f : α → ExceptT ε (StateM σ) PUnit} (I : List α → σ → Prop) {l : List α}
    (step : ∀ done a rest s, l = done ++ a :: rest → I done s →
      ∃ s', outcome (f a) s = (.ok ⟨⟩, s') ∧ I (done ++ [a]) s') {s : σ} (hI : I [] s) :
    ∃ s', outcome (l.forM f) s = (.ok ⟨⟩, s') ∧ I l s' := by
  have h : Ends (outcome (l.forM f) s) (fun _ s' => I l s') (fun _ _ => False) := by
    refine Ends.forM I (fun done a rest s hl hI => ?_) hI
    obtain ⟨s', hs, hI'⟩ := step done a rest s hl hI
    rw [hs]
    exact hI'
  obtain ⟨⟨⟩, s', hrun, hI'⟩ := h.exists_ok
  exact ⟨s', hrun, hI'⟩

/-! ## What a call leaves alone -/

/-- Whatever the answer, the state that the call leaves stands in relation `R` to the one it
found. -/
def Keeps (R : σ → σ → Prop) (t : ExceptT ε (StateM σ) α) : Prop := ∀ s, R s (outcome t s).2

namespace Keeps

variable {R : σ → σ → Prop}

theorem of_eq {t : ExceptT ε (StateM σ) α} {r : Except ε α} {s s' : σ} (h : Keeps R t)
    (hr : outcome t s = (r, s')) : R s s' := by
  have hs := h s
  rwa [hr] at hs

theorem of_ends {t : ExceptT ε (StateM σ) α}
    (h : ∀ s, Ends (outcome t s) (fun _ s' => R s s') fun _ s' => R s s') : Keeps R t := by
  intro s
  have hends := h s
  revert hends
  obtain ⟨r, s'⟩ := outcome t s
  cases r <;> exact id

variable [IsPreorder σ R]

theorem pure (a : α) : Keeps R (Pure.pure a : ExceptT ε (StateM σ) α) := fun s => refl_of R s

theorem throw (e : ε) : Keeps R (MonadExcept.throw e : ExceptT ε (StateM σ) α) :=
  fun s => refl_of R s

theorem get : Keeps R (MonadState.get : ExceptT ε (StateM σ) σ) := fun s => refl_of R s

theorem check (x : Except ε α) : Keeps R (liftM x : ExceptT ε (StateM σ) α) :=
  fun s => refl_of R s

theorem lift (x : Except Error α) : Keeps R (liftM x : ExceptT Failure (StateM σ) α) :=
  fun s => refl_of R s

theorem bind {x : ExceptT ε (StateM σ) α} {f : α → ExceptT ε (StateM σ) β} (hx : Keeps R x)
    (hf : ∀ a, Keeps R (f a)) : Keeps R (x >>= f) := by
  intro s
  have h₁ := hx s
  rw [outcome_bind]
  revert h₁
  obtain ⟨r, s₁⟩ := outcome x s
  cases r with
  | error e => exact id
  | ok a => exact fun h₁ => trans_of R h₁ (hf a s₁)

theorem forM {f : α → ExceptT ε (StateM σ) PUnit} (hf : ∀ a, Keeps R (f a)) :
    ∀ l : List α, Keeps R (l.forM f)
  | [] => Keeps.pure _
  | a :: l => by
    rw [List.forM_eq_forM, List.forM_cons, ← List.forM_eq_forM]
    exact (hf a).bind fun _ => Keeps.forM hf l

theorem mapM {f : α → ExceptT ε (StateM σ) β} (hf : ∀ a, Keeps R (f a)) :
    ∀ l : List α, Keeps R (l.mapM f)
  | [] => Keeps.pure _
  | a :: l => by
    rw [List.mapM_cons]
    exact (hf a).bind fun b => (Keeps.mapM hf l).bind fun bs => Keeps.pure _

theorem foldlM {f : β → α → ExceptT ε (StateM σ) β} (hf : ∀ b a, Keeps R (f b a)) :
    ∀ (l : List α) (b : β), Keeps R (l.foldlM f b)
  | [], b => Keeps.pure b
  | a :: l, b => by
    rw [List.foldlM_cons]
    exact (hf b a).bind fun b' => Keeps.foldlM hf l b'

/-- What is kept is kept along the way, whichever way the call ends. -/
theorem ends {t : ExceptT ε (StateM σ) α} {s₀ s : σ} (h : Keeps R t) (hs : R s₀ s) :
    Ends (outcome t s) (fun _ s' => R s₀ s') fun _ s' => R s₀ s' := by
  have hkept := trans_of R hs (h s)
  revert hkept
  obtain ⟨r, s'⟩ := outcome t s
  cases r with
  | ok a => exact id
  | error e => exact id

end Keeps

end

end HeteroNet
