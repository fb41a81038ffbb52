import FuelSequencer.App.Block

/-! # Invariants of a block

A property of the state that every message of the bridge and of the sequencing module
keeps, and that looks neither at the other modules nor at the index, is kept by
transactions and by whole blocks.
-/
namespace FuelSequencer.Wiring
open Go Wire Exec Lib Bridge

variable {W : Type} {app : App W} {P : State W → Prop} {ctx : Ctx}

structure BlockInvariant (app : App W) (P : State W → Prop) : Prop where
  world : ∀ (s : State W) (w : W), P s → P { s with world := w }
  index : ∀ (s : State W) (index : Option Index), P s → P { s with bridge := { s.bridge with index := index } }
  message : ∀ (ctx : Ctx) (m : Msg), Preserves P (handleBridge app ctx m)

namespace BlockInvariant

theorem putWorld (h : BlockInvariant app P) (w : W) : Preserves P (putWorld w) :=
  Preserves.modify fun s => h.world s w

theorem inWorld {α : Type} (h : BlockInvariant app P) (x : Prog GoString W α) : Preserves P (inWorld x) := by
  intro s t a hrun hs
  cases hx : x.run s.world with
  | ok b w =>
    rw [run_inWorld_of_ok hx] at hrun
    cases hrun
    exact h.world s w hs
  | error e w =>
    rw [run_inWorld_of_error hx] at hrun
    cases hrun

/-! ## Messages -/

theorem runRouted (h : BlockInvariant app P) (x : Routed W) : Preserves P (runRouted app ctx x) := by
  induction x with
  | done w => exact (h.putWorld w).bind fun _ => Preserves.pure P _
  | fail fault w => exact (h.putWorld w).bind fun _ => Preserves.throw P fault
  | call w m next ih =>
    refine (h.putWorld w).bind fun _ => (h.message ctx m).bind fun _ => (Preserves.get P).bind fun s => ?_
    exact (ih s.world).bind fun _ => Preserves.pure P _
  | scope body next ihb ihn =>
    rw [Wiring.runRouted]
    refine ihb.caught_isolated.bind fun r => ?_
    cases r with
    | ok journal =>
      exact (Preserves.get P).bind fun s => (ihn none s.world).bind fun _ => Preserves.pure P _
    | error fault => exact (Preserves.get P).bind fun s => ihn (some fault) s.world

theorem handleMsg (h : BlockInvariant app P) (m : Msg) : Preserves P (handleMsg app ctx m) := by
  cases m with
  | other any =>
    exact (Preserves.ofOutcome P _).bind fun _ => (Preserves.get P).bind fun _ => h.runRouted _
  | _ => exact h.message ctx _

theorem runMsgs (h : BlockInvariant app P) (msgs : List Msg) : Preserves P (runMsgs app ctx msgs) := by
  induction msgs with
  | nil => exact Preserves.pure P _
  | cons m msgs ih => exact (h.handleMsg m).bind fun _ => ih.bind fun _ => Preserves.pure P _

/-! ## Transactions and blocks -/

theorem injectedTxsDecorator (h : BlockInvariant app P) (mode : ExecMode) :
    Preserves P (injectedTxsDecorator ctx mode) := by
  have hstore : Preserves P (getStore : Run W Store) := (Preserves.get P).bind fun _ => Preserves.pure P _
  refine hstore.bind fun store => ?_
  split
  · exact Preserves.pure P _
  · split
    · exact Preserves.pure P _
    · split
      · exact (Preserves.modify fun s hs => h.index s _ hs).bind fun _ => Preserves.pure P _
      · exact Preserves.pure P _

theorem anteHandler (h : BlockInvariant app P) (mode : ExecMode) (txBz : Bytes) (tx : Tx) :
    Preserves P (anteHandler app ctx mode txBz tx) := by
  refine (h.injectedTxsDecorator mode).bind fun pass => ?_
  have hrest : Preserves P (onlyIf (pass = .native) do
      sequencerNativeTxsDecorator ctx txBz
      Bridge.inWorld (app.modules.anteRest ctx txBz tx) : Run W Unit) := by
    unfold onlyIf
    split
    · exact ((Preserves.get P).bind fun _ => Preserves.failIf P _ _).bind fun _ => h.inWorld _
    · exact Preserves.pure P _
  exact hrest.bind fun _ => Preserves.pure P _

theorem runMsgsMetered (h : BlockInvariant app P) (txBz : Bytes) (tx : Tx) (pass : Pass) :
    Preserves P (runMsgsMetered app ctx txBz tx pass) :=
  (Preserves.get P).bind fun _ => (h.runMsgs tx.msgs).bind fun _ =>
    (Preserves.failIf P _ _).bind fun _ => Preserves.pure P _

theorem runTx (h : BlockInvariant app P) (txBz : Bytes) : Preserves P (runTx app ctx txBz) := by
  unfold Wiring.runTx
  split
  · exact Preserves.pure P _
  · next tx _ =>
    refine (h.anteHandler .finalize txBz tx).caught_isolated.bind fun r => ?_
    cases r with
    | error fault => exact Preserves.pure P _
    | ok pass =>
      refine (h.runMsgsMetered txBz tx pass).caught_isolated.bind fun r => ?_
      cases r <;> exact Preserves.pure P _

theorem deliverTxs (h : BlockInvariant app P) (txs : List Bytes) : Preserves P (deliverTxs app ctx txs) := by
  induction txs with
  | nil => exact Preserves.pure P _
  | cons txBz txs ih => exact (h.runTx txBz).bind fun _ => ih.bind fun _ => Preserves.pure P _

/-- What the beginning of a block keeps, the block keeps. -/
theorem finalizeBlock (h : BlockInvariant app P) {txs : List Bytes} {s t : State W} {r : BlockResult}
    (hopen : ∀ s₁, (openBlock app ctx).run s = .ok () s₁ → P s₁)
    (hrun : (finalizeBlock app ctx txs).run s = .ok r t) : P t := by
  simp only [Wiring.finalizeBlock, run_bind_eq_ok, run_endBlock_eq_ok, run_pure_eq_ok] at hrun
  obtain ⟨_, s₁, hs₁, outcomes, s₂, hdeliver, closing, s₃, hclose, _, _, ⟨i, -, -, rfl⟩, -, rfl⟩ := hrun
  have h₂ := h.deliverTxs txs hdeliver (hopen s₁ hs₁)
  have hclosing : Preserves P (closeOthers app ctx) := (Preserves.get P).bind fun s => h.runRouted _
  exact h.index s₃ none (hclosing hclose h₂)

end BlockInvariant

end FuelSequencer.Wiring
