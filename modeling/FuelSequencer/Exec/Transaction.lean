import Mathlib

/-! # Stateful computations that can return an error or panic

A computation ends with a value, with a returned error, or by unwinding in a
panic; in each case the state holds every write made up to that point. The
combinators below say what a caller keeps of those writes: an attempted call
turns a returned error into a value, an isolated call discards the writes of a
computation that did not end with a value.
-/
namespace FuelSequencer.Exec

inductive Fault (ε : Type) where
  | err (e : ε)
  | panic (e : ε)
deriving DecidableEq, Repr

abbrev Prog (ε σ α : Type) := EStateM (Fault ε) σ α

variable {ε σ α β γ : Type}

/-- The state in which a computation ended, whichever way it ended. -/
def final : EStateM.Result (Fault ε) σ α → σ
  | .ok _ s => s
  | .error _ s => s

/-- The value of a normal end. -/
def value : EStateM.Result (Fault ε) σ α → Option α
  | .ok a _ => some a
  | .error _ _ => none

/-- Whether a computation ended with a panic. -/
def panicked : EStateM.Result (Fault ε) σ α → Bool
  | .error (.panic _) _ => true
  | _ => false

theorem eq_ok_of_value {r : EStateM.Result (Fault ε) σ α} {a : α} (h : value r = some a) :
    r = .ok a (final r) := by
  cases r with
  | ok b s => rw [← Option.some.inj h]; rfl
  | error e s => cases h

theorem exists_ok_of_isSome {r : EStateM.Result (Fault ε) σ α} (h : (value r).isSome) :
    ∃ a, r = .ok a (final r) := by
  obtain ⟨a, ha⟩ := Option.isSome_iff_exists.mp h
  exact ⟨a, eq_ok_of_value ha⟩

def fail (e : ε) : Prog ε σ α := fun s => .error (.err e) s

def crash (e : ε) : Prog ε σ α := fun s => .error (.panic e) s

/-- A call whose returned error the caller inspects; a panic still unwinds. -/
def attempt (x : Prog ε σ α) : Prog ε σ (Except ε α) := fun s =>
  match x.run s with
  | .ok a t => .ok (.ok a) t
  | .error (.err e) t => .ok (.error e) t
  | .error (.panic e) t => .error (.panic e) t

/-- A call that also recovers from a panic. -/
def caught (x : Prog ε σ α) : Prog ε σ (Except (Fault ε) α) := fun s =>
  match x.run s with
  | .ok a t => .ok (.ok a) t
  | .error e t => .ok (.error e) t

def onlyIf (c : Bool) (x : Prog ε σ Unit) : Prog ε σ Unit := if c then x else pure ()

/-- Runs on a copy of the state that is written back only at a normal end. -/
def isolated (x : Prog ε σ α) : Prog ε σ α := fun s =>
  match x.run s with
  | .ok a t => .ok a t
  | .error e _ => .error e s

/-- A computation over a part of the state. -/
def zoom {τ : Type} (get : σ → τ) (put : τ → σ → σ) (x : Prog ε τ α) : Prog ε σ α := fun s =>
  match x.run (get s) with
  | .ok a t => .ok a (put t s)
  | .error e t => .error e (put t s)

/-! ## Results without a state -/

abbrev Outcome (ε α : Type) := Except (Fault ε) α

/-- An early return with `e` when the condition holds. -/
def failIf {ε : Type} {m : Type → Type} [Monad m] [MonadExceptOf ε m] (c : Prop) [Decidable c]
    (e : ε) : m Unit :=
  if c then throw e else pure ()

/-- An absent value ends the computation with `e`. -/
def required (o : Option α) (e : Fault ε) : Outcome ε α :=
  match o with
  | some a => .ok a
  | none => .error e

/-- A returned error passed on with more text around it. -/
def wrapping (wrap : ε → ε) (x : Except ε α) : Outcome ε α := x.mapError fun e => .err (wrap e)

/-- The same for a callee that can also panic; a panic passes through. -/
def wrapFault (wrap : ε → ε) (x : Outcome ε α) : Outcome ε α :=
  x.mapError fun
    | .err e => .err (wrap e)
    | .panic e => .panic e

/-- A failure of the callee that unwinds. -/
def panicking (x : Except ε α) : Outcome ε α := x.mapError .panic

def ofOutcome (x : Outcome ε α) : Prog ε σ α := fun s =>
  match x with
  | .ok a => .ok a s
  | .error e => .error e s

@[simp] theorem ok_bind (a : α) (f : α → Except ε β) : (Except.ok a >>= f) = f a := rfl

@[simp] theorem error_bind (e : ε) (f : α → Except ε β) :
    ((Except.error e : Except ε α) >>= f) = .error e := rfl

@[simp] theorem except_pure (a : α) : (pure a : Except ε α) = .ok a := rfl

theorem except_bind_eq_ok {x : Except ε α} {f : α → Except ε β} {b : β} :
    (x >>= f) = .ok b ↔ ∃ a, x = .ok a ∧ f a = .ok b := by
  cases x with
  | ok a =>
    constructor
    · intro h
      exact ⟨a, rfl, h⟩
    · rintro ⟨a', h, hf⟩
      cases h
      exact hf
  | error e =>
    constructor
    · intro h
      cases h
    · rintro ⟨a, h, -⟩
      cases h

theorem except_bind_eq_error {x : Except ε α} {f : α → Except ε β} {e : ε} :
    (x >>= f) = .error e ↔ x = .error e ∨ ∃ a, x = .ok a ∧ f a = .error e := by
  cases x with
  | ok a => simp
  | error e' => simp

theorem exists_eq_error_iff {x : Except ε α} : (∃ e, x = .error e) ↔ ¬ ∃ a, x = .ok a := by
  cases x with
  | ok a => simp
  | error e => simp

theorem except_mapM_eq_ok {f : α → Except ε β} {xs : List α} {ys : List β} :
    xs.mapM f = .ok ys ↔ List.Forall₂ (fun x y => f x = .ok y) xs ys := by
  induction xs generalizing ys with
  | nil =>
    rw [List.mapM_nil, List.forall₂_nil_left_iff, except_pure, Except.ok.injEq]
    exact eq_comm
  | cons x xs ih =>
    simp only [List.mapM_cons, except_bind_eq_ok, except_pure, Except.ok.injEq, ih,
      List.forall₂_cons_left_iff]
    constructor
    · rintro ⟨y, hy, ys', hys, rfl⟩
      exact ⟨y, ys', hy, hys, rfl⟩
    · rintro ⟨y, ys', hy, hys, rfl⟩
      exact ⟨y, hy, ys', hys, rfl⟩

theorem except_forM_eq_ok {f : α → Except ε Unit} {xs : List α} {u : Unit} :
    xs.forM f = .ok u ↔ ∀ x ∈ xs, f x = .ok () := by
  induction xs with
  | nil => simp
  | cons x xs ih =>
    change (f x >>= fun _ => xs.forM f) = .ok u ↔ _
    rw [except_bind_eq_ok, List.forall_mem_cons, ← ih]
    exact Unique.exists_iff

@[simp] theorem mapError_eq_ok {δ : Type} {f : ε → δ} {x : Except ε α} {a : α} :
    x.mapError f = .ok a ↔ x = .ok a := by
  cases x <;> simp [Except.mapError]

theorem exists_of_isOk {x : Except ε α} (h : x.isOk = true) : ∃ a, x = .ok a := by
  cases x with
  | ok a => exact ⟨a, rfl⟩
  | error e => cases h

@[simp] theorem failIf_eq_ok {c : Prop} [Decidable c] {e : ε} {u : Unit} :
    (failIf c e : Except ε Unit) = .ok u ↔ ¬ c := by
  unfold failIf
  by_cases h : c
  · simp only [h, if_true, not_true, iff_false]
    intro he
    cases he
  · simp only [h, if_false, not_false_eq_true, iff_true]
    rfl

theorem failIf_eq_error {c : Prop} [Decidable c] {e e' : ε} : (failIf c e : Except ε Unit) = .error e' ↔ c ∧ e = e' := by
  unfold failIf
  split_ifs with h
  · simpa [h] using ⟨Except.error.inj, congrArg _⟩
  · simp [h]

theorem failIf_of_not {c : Prop} [Decidable c] {e : ε} (h : ¬ c) :
    (failIf c e : Except ε Unit) = .ok () := failIf_eq_ok.mpr h

theorem failIf_of {c : Prop} [Decidable c] {e : ε} (h : c) :
    (failIf c e : Except ε Unit) = .error e := if_pos h

@[simp] theorem required_eq_ok {o : Option α} {e : Fault ε} {a : α} :
    required o e = .ok a ↔ o = some a := by
  cases o <;> simp [required]

@[simp] theorem wrapping_eq_ok {wrap : ε → ε} {x : Except ε α} {a : α} :
    wrapping wrap x = .ok a ↔ x = .ok a := by
  cases x <;> simp [wrapping, Except.mapError]

theorem wrapping_eq_error {wrap : ε → ε} {x : Except ε α} {e : Fault ε} :
    wrapping wrap x = .error e ↔ ∃ text, x = .error text ∧ e = .err (wrap text) := by
  cases x <;> simp [wrapping, Except.mapError, eq_comm]

@[simp] theorem wrapFault_eq_ok {wrap : ε → ε} {x : Outcome ε α} {a : α} :
    wrapFault wrap x = .ok a ↔ x = .ok a := by
  cases x <;> simp [wrapFault, Except.mapError]

@[simp] theorem panicking_eq_ok {x : Except ε α} {a : α} : panicking x = .ok a ↔ x = .ok a := by
  cases x <;> simp [panicking, Except.mapError]

/-! ## Computations without a panic -/

/-- The computation ends normally or with a returned error. -/
def Returns (x : Outcome ε α) : Prop := ∀ e, x ≠ .error (.panic e)

@[simp] theorem returns_ok (a : α) : Returns (.ok a : Outcome ε α) := by
  intro e h
  cases h

theorem returns_bind {x : Outcome ε α} {f : α → Outcome ε β} :
    Returns (x >>= f) ↔ Returns x ∧ ∀ a, x = .ok a → Returns (f a) := by
  cases x with
  | ok a => simp
  | error e => simp [Returns]

@[simp] theorem returns_wrapping {wrap : ε → ε} {x : Except ε α} : Returns (wrapping wrap x) := by
  intro e h
  cases x <;> cases h

@[simp] theorem returns_wrapFault {wrap : ε → ε} {x : Outcome ε α} : Returns (wrapFault wrap x) ↔ Returns x := by
  cases x with
  | ok a => simp [Returns, wrapFault, Except.mapError]
  | error e => cases e <;> simp [Returns, wrapFault, Except.mapError]

@[simp] theorem returns_failIf_err {c : Prop} [Decidable c] {e : ε} : Returns (failIf c (Fault.err e) : Outcome ε Unit) := by
  intro e' h
  cases (failIf_eq_error.mp h).2

@[simp] theorem returns_failIf_panic {c : Prop} [Decidable c] {e : ε} :
    Returns (failIf c (Fault.panic e) : Outcome ε Unit) ↔ ¬ c := by
  simp [Returns, failIf_eq_error]

@[simp] theorem returns_required_panic {o : Option α} {e : ε} : Returns (required o (.panic e)) ↔ ∃ a, o = some a := by
  cases o <;> simp [Returns, required]

@[simp] theorem run_ofOutcome_ok (a : α) (s : σ) : (ofOutcome (.ok a) : Prog ε σ α).run s = .ok a s :=
  rfl

/-! ## Running -/

@[simp] theorem run_failIf {c : Prop} [Decidable c] {e : Fault ε} (s : σ) :
    (failIf c e : Prog ε σ Unit).run s = if c then .error e s else .ok () s := by
  unfold failIf
  by_cases h : c
  · rw [if_pos h, if_pos h]; rfl
  · rw [if_neg h, if_neg h]; rfl

@[simp] theorem run_fail (e : ε) (s : σ) : (fail e : Prog ε σ α).run s = .error (.err e) s := rfl
@[simp] theorem run_crash (e : ε) (s : σ) : (crash e : Prog ε σ α).run s = .error (.panic e) s := rfl

/-- The cases of a normal end of a sequence. -/
theorem run_bind_eq_ok {x : Prog ε σ α} {f : α → Prog ε σ β} {s u : σ} {b : β} :
    (x >>= f).run s = .ok b u ↔ ∃ a t, x.run s = .ok a t ∧ (f a).run t = .ok b u := by
  rw [EStateM.run_bind]
  cases x.run s with
  | ok a t =>
    constructor
    · intro h
      exact ⟨a, t, rfl, h⟩
    · rintro ⟨a', t', h, hf⟩
      cases h
      exact hf
  | error e t => simp

/-- A sequence ends with a fault in its first part or in the rest. -/
theorem run_bind_eq_error {x : Prog ε σ α} {f : α → Prog ε σ β} {s u : σ} {e : Fault ε} :
    (x >>= f).run s = .error e u ↔
      x.run s = .error e u ∨ ∃ a t, x.run s = .ok a t ∧ (f a).run t = .error e u := by
  rw [EStateM.run_bind]
  cases x.run s with
  | ok a t => simp
  | error e' t => simp

@[simp] theorem run_pure_eq_ok {a b : α} {s t : σ} :
    (pure a : Prog ε σ α).run s = .ok b t ↔ a = b ∧ t = s := by
  rw [EStateM.run_pure, EStateM.Result.ok.injEq]
  exact and_congr_right fun _ => eq_comm

@[simp] theorem run_get_eq_ok {a s t : σ} : (get : Prog ε σ σ).run s = .ok a t ↔ a = s ∧ t = s := by
  rw [EStateM.run_get, EStateM.Result.ok.injEq]
  exact and_congr eq_comm eq_comm

@[simp] theorem run_failIf_eq_ok {c : Prop} [Decidable c] {e : Fault ε} {s t : σ} {u : Unit} :
    (failIf c e : Prog ε σ Unit).run s = .ok u t ↔ ¬ c ∧ t = s := by
  rw [run_failIf]
  by_cases h : c
  · simp [h]
  · simp [h, eq_comm]

@[simp] theorem run_ofOutcome_eq_ok {x : Outcome ε α} {s t : σ} {a : α} :
    (ofOutcome x : Prog ε σ α).run s = .ok a t ↔ x = .ok a ∧ t = s := by
  cases x with
  | ok b =>
    rw [run_ofOutcome_ok, EStateM.Result.ok.injEq, Except.ok.injEq]
    exact and_congr_right fun _ => eq_comm
  | error e =>
    constructor
    · intro h
      cases h
    · rintro ⟨h, -⟩
      cases h

theorem run_onlyIf (c : Bool) (x : Prog ε σ Unit) (s : σ) :
    (onlyIf c x).run s = if c then x.run s else .ok () s := by
  cases c <;> rfl

theorem run_bind_of_ok {x : Prog ε σ α} {f : α → Prog ε σ β} {s t : σ} {a : α}
    (h : x.run s = .ok a t) : (x >>= f).run s = (f a).run t := by
  rw [EStateM.run_bind, h]

theorem run_bind_of_error {x : Prog ε σ α} {f : α → Prog ε σ β} {s t : σ} {e : Fault ε}
    (h : x.run s = .error e t) : (x >>= f).run s = .error e t := by
  rw [EStateM.run_bind, h]

theorem run_attempt_of_ok {x : Prog ε σ α} {s t : σ} {a : α} (h : x.run s = .ok a t) :
    (attempt x).run s = .ok (.ok a) t := by
  change attempt x s = _
  simp only [attempt, h]

theorem run_attempt_of_err {x : Prog ε σ α} {s t : σ} {e : ε} (h : x.run s = .error (.err e) t) :
    (attempt x).run s = .ok (.error e) t := by
  change attempt x s = _
  simp only [attempt, h]

theorem run_attempt_of_panic {x : Prog ε σ α} {s t : σ} {e : ε}
    (h : x.run s = .error (.panic e) t) : (attempt x).run s = .error (.panic e) t := by
  change attempt x s = _
  simp only [attempt, h]

theorem run_caught_of_ok {x : Prog ε σ α} {s t : σ} {a : α} (h : x.run s = .ok a t) :
    (caught x).run s = .ok (.ok a) t := by
  change caught x s = _
  simp only [caught, h]

theorem run_caught_of_error {x : Prog ε σ α} {s t : σ} {e : Fault ε} (h : x.run s = .error e t) :
    (caught x).run s = .ok (.error e) t := by
  change caught x s = _
  simp only [caught, h]

theorem run_isolated_of_ok {x : Prog ε σ α} {s t : σ} {a : α} (h : x.run s = .ok a t) :
    (isolated x).run s = .ok a t := by
  change isolated x s = _
  simp only [isolated, h]

theorem run_isolated_of_error {x : Prog ε σ α} {s t : σ} {e : Fault ε} (h : x.run s = .error e t) :
    (isolated x).run s = .error e s := by
  change isolated x s = _
  simp only [isolated, h]

/-- The two endings of a call that runs on a copy of the state and is recovered from. -/
theorem run_caught_isolated_eq_ok {x : Prog ε σ α} {s t : σ} {r : Except (Fault ε) α} :
    (caught (isolated x)).run s = .ok r t ↔
      (∃ a, r = .ok a ∧ x.run s = .ok a t) ∨ (∃ e u, r = .error e ∧ x.run s = .error e u ∧ t = s) := by
  cases h : x.run s with
  | ok a u =>
    rw [run_caught_of_ok (run_isolated_of_ok h), EStateM.Result.ok.injEq]
    constructor
    · rintro ⟨rfl, rfl⟩
      exact Or.inl ⟨a, rfl, rfl⟩
    · rintro (⟨b, rfl, hb⟩ | ⟨e, v, -, he, -⟩)
      · cases hb
        exact ⟨rfl, rfl⟩
      · cases he
  | error e u =>
    rw [run_caught_of_error (run_isolated_of_error h), EStateM.Result.ok.injEq]
    constructor
    · rintro ⟨rfl, rfl⟩
      exact Or.inr ⟨e, u, rfl, rfl, rfl⟩
    · rintro (⟨b, -, hb⟩ | ⟨e', v, rfl, he, rfl⟩)
      · cases hb
      · cases he
        exact ⟨rfl, rfl⟩

section Zoom

variable {τ : Type} {get : σ → τ} {put : τ → σ → σ}

theorem run_zoom_of_ok {x : Prog ε τ α} {s : σ} {t : τ} {a : α} (h : x.run (get s) = .ok a t) :
    (zoom get put x).run s = .ok a (put t s) := by
  change zoom get put x s = _
  simp only [zoom, h]

theorem run_zoom_of_error {x : Prog ε τ α} {s : σ} {t : τ} {e : Fault ε}
    (h : x.run (get s) = .error e t) : (zoom get put x).run s = .error e (put t s) := by
  change zoom get put x s = _
  simp only [zoom, h]

theorem final_zoom (x : Prog ε τ α) (s : σ) :
    final ((zoom get put x).run s) = put (final (x.run (get s))) s := by
  cases h : x.run (get s) with
  | ok a t => rw [run_zoom_of_ok h]; rfl
  | error e t => rw [run_zoom_of_error h]; rfl

end Zoom

/-! ## Frames

A computation keeps an observation of the state when no ending changes it.
-/

def Keeps (g : σ → γ) (x : Prog ε σ α) : Prop := ∀ s, g (final (x.run s)) = g s

theorem keeps_pure (g : σ → γ) (a : α) : Keeps g (pure a : Prog ε σ α) := fun _ => rfl
theorem keeps_fail (g : σ → γ) (e : ε) : Keeps g (fail e : Prog ε σ α) := fun _ => rfl
theorem keeps_crash (g : σ → γ) (e : ε) : Keeps g (crash e : Prog ε σ α) := fun _ => rfl
theorem keeps_get (g : σ → γ) : Keeps g (get : Prog ε σ σ) := fun _ => rfl

theorem keeps_ofOutcome (g : σ → γ) (x : Outcome ε α) : Keeps g (ofOutcome x : Prog ε σ α) := by
  intro s
  cases x <;> rfl

theorem keeps_failIf (g : σ → γ) (c : Prop) [Decidable c] (e : Fault ε) :
    Keeps g (failIf c e : Prog ε σ Unit) := by
  intro s
  rw [run_failIf]
  by_cases h : c
  · rw [if_pos h]; rfl
  · rw [if_neg h]; rfl

theorem Keeps.of_ok {g : σ → γ} {x : Prog ε σ α} (hx : Keeps g x) {s t : σ} {a : α}
    (h : x.run s = .ok a t) : g t = g s := by
  have hs := hx s
  rwa [h] at hs

theorem Keeps.of_error {g : σ → γ} {x : Prog ε σ α} (hx : Keeps g x) {s t : σ} {e : Fault ε}
    (h : x.run s = .error e t) : g t = g s := by
  have hs := hx s
  rwa [h] at hs

theorem Keeps.bind {g : σ → γ} {x : Prog ε σ α} {f : α → Prog ε σ β}
    (hx : Keeps g x) (hf : ∀ a, Keeps g (f a)) : Keeps g (x >>= f) := by
  intro s
  have hs := hx s
  cases h : x.run s with
  | ok a t =>
    rw [h] at hs
    rw [run_bind_of_ok h, hf a t]
    exact hs
  | error e t =>
    rw [h] at hs
    rw [run_bind_of_error h]
    exact hs

theorem Keeps.ite {g : σ → γ} {c : Prop} [Decidable c] {x y : Prog ε σ α}
    (hx : Keeps g x) (hy : Keeps g y) : Keeps g (if c then x else y) := by
  split
  · exact hx
  · exact hy

theorem Keeps.attempt {g : σ → γ} {x : Prog ε σ α} (hx : Keeps g x) : Keeps g (attempt x) := by
  intro s
  have hs := hx s
  cases h : x.run s with
  | ok a t => rw [run_attempt_of_ok h]; rwa [h] at hs
  | error e t =>
    rw [h] at hs
    cases e with
    | err e => rw [run_attempt_of_err h]; exact hs
    | panic e => rw [run_attempt_of_panic h]; exact hs

theorem Keeps.isolated {g : σ → γ} {x : Prog ε σ α} (hx : Keeps g x) : Keeps g (isolated x) := by
  intro s
  have hs := hx s
  cases h : x.run s with
  | ok a t => rw [run_isolated_of_ok h]; rwa [h] at hs
  | error e t => rw [run_isolated_of_error h]; rfl

theorem Keeps.caught {g : σ → γ} {x : Prog ε σ α} (hx : Keeps g x) : Keeps g (caught x) := by
  intro s
  have hs := hx s
  cases h : x.run s with
  | ok a t => rw [run_caught_of_ok h]; rwa [h] at hs
  | error e t => rw [run_caught_of_error h]; rwa [h] at hs

theorem Keeps.onlyIf {g : σ → γ} {c : Bool} {x : Prog ε σ Unit} (hx : Keeps g x) : Keeps g (onlyIf c x) := by
  cases c with
  | true => exact hx
  | false => exact keeps_pure g _

/-! ## Invariants

A computation preserves a property of the state when every normal end keeps it.
-/

def Preserves (P : σ → Prop) (x : Prog ε σ α) : Prop := ∀ ⦃s t a⦄, x.run s = .ok a t → P s → P t

namespace Preserves

variable {P : σ → Prop}

theorem pure (P : σ → Prop) (a : α) : Preserves P (pure a : Prog ε σ α) := by
  intro s t b h hs
  obtain ⟨-, rfl⟩ := run_pure_eq_ok.mp h
  exact hs

theorem throw (P : σ → Prop) (e : Fault ε) : Preserves P (throw e : Prog ε σ α) := by
  intro s t a h
  cases h

theorem get (P : σ → Prop) : Preserves P (get : Prog ε σ σ) := by
  intro s t a h hs
  obtain ⟨-, rfl⟩ := run_get_eq_ok.mp h
  exact hs

theorem modify {f : σ → σ} (h : ∀ s, P s → P (f s)) : Preserves P (modify f : Prog ε σ PUnit) := by
  intro s t a hrun hs
  cases hrun
  exact h s hs

theorem failIf (P : σ → Prop) (c : Prop) [Decidable c] (e : Fault ε) :
    Preserves P (failIf c e : Prog ε σ Unit) := by
  intro s t a h hs
  obtain ⟨-, rfl⟩ := run_failIf_eq_ok.mp h
  exact hs

theorem ofOutcome (P : σ → Prop) (x : Outcome ε α) : Preserves P (ofOutcome x : Prog ε σ α) := by
  intro s t a h hs
  obtain ⟨-, rfl⟩ := run_ofOutcome_eq_ok.mp h
  exact hs

theorem bind {x : Prog ε σ α} {f : α → Prog ε σ β} (hx : Preserves P x) (hf : ∀ a, Preserves P (f a)) :
    Preserves P (x >>= f) := by
  intro s u b h hs
  obtain ⟨a, t, hxt, hft⟩ := run_bind_eq_ok.mp h
  exact hf a hft (hx hxt hs)

/-- A call on a copy of the state either ends normally or leaves the state as it was. -/
theorem caught_isolated {x : Prog ε σ α} (hx : Preserves P x) : Preserves P (caught (isolated x)) := by
  intro s t r h hs
  rcases run_caught_isolated_eq_ok.mp h with ⟨a, -, hrun⟩ | ⟨e, u, -, -, rfl⟩
  · exact hx hrun hs
  · exact hs

end Preserves

end FuelSequencer.Exec
