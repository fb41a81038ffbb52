import FuelSequencer.App.Environment

/-! # The bridge store

The keys of the module next to those of the sequencing module and the state of the others. Every getter that
panics on a missing key is one reader with the key and its text.
-/
namespace FuelSequencer.Bridge
open Go Exec Wiring

/-- `GetParams` yields the zero params when none are stored, so they are a plain field. -/
structure Store where
  params : Params
  index : Option Index
  supplyDeltaInfo : Option SupplyDeltaInfo
  lastEthereumNonce : Option ℤ
  lastEthereumBlockSynced : Option UInt64
  ethereumEventIndexOffset : Option UInt64
  lastEthBlockUpdateTime : Option UInt64
  lastConsensusTxsSequence : Option UInt64
deriving DecidableEq

structure State (W : Type) where
  bridge : Store
  sequencing : Sequencing.Store
  world : W

abbrev Run (W α : Type) := Prog GoString (State W) α

variable {W α : Type}

/-- The stored nanoseconds are read back as a signed count. -/
def Store.getLastEthBlockUpdateTime (b : Store) : Option Time :=
  b.lastEthBlockUpdateTime.map fun n => int64 n.toNat

def getStore : Run W Store := do return (← get).bridge

def onStore (f : Store → Store) : Run W Unit := modify fun s => { s with bridge := f s.bridge }

def inWorld (x : Prog GoString W α) : Run W α :=
  zoom State.world (fun w s => { s with world := w }) x

def mustGet (key : Store → Option α) (text : String) : Run W α := do
  match key (← getStore) with
  | some a => pure a
  | none => crash (str text)

def mustGetSupplyDeltaInfo : Run W SupplyDeltaInfo :=
  mustGet Store.supplyDeltaInfo "expected to find supply delta info"
def mustGetLastEthereumNonce : Run W ℤ :=
  mustGet Store.lastEthereumNonce "expected to find LastEthereumNonce"
def mustGetLastEthereumBlockSynced : Run W UInt64 :=
  mustGet Store.lastEthereumBlockSynced "expected to find LastEthereumBlockSynced"
def mustGetEthereumEventIndexOffset : Run W UInt64 :=
  mustGet Store.ethereumEventIndexOffset "expected to find EthereumEventIndexOffset"
def mustGetLastConsensusTxsSequence : Run W UInt64 :=
  mustGet Store.lastConsensusTxsSequence "expected to find LastConsensusTxsSequence"

def setIndex (index : Index) : Run W Unit := onStore fun b => { b with index := some index }
def removeIndex : Run W Unit := onStore fun b => { b with index := none }
def setSupplyDeltaInfo (info : SupplyDeltaInfo) : Run W Unit :=
  onStore fun b => { b with supplyDeltaInfo := some info }
def setLastEthereumNonce (nonce : ℤ) : Run W Unit :=
  onStore fun b => { b with lastEthereumNonce := some nonce }
def setLastEthereumBlockSynced (block : UInt64) : Run W Unit :=
  onStore fun b => { b with lastEthereumBlockSynced := some block }
def setEthereumEventIndexOffset (offset : UInt64) : Run W Unit :=
  onStore fun b => { b with ethereumEventIndexOffset := some offset }
def resetEthereumEventIndexOffset : Run W Unit := setEthereumEventIndexOffset 0
def setLastEthBlockUpdateTime (time : Time) : Run W Unit :=
  onStore fun b => { b with lastEthBlockUpdateTime := some (UInt64.ofNat (uint64 time)) }
def setLastConsensusTxsSequence (sequence : UInt64) : Run W Unit :=
  onStore fun b => { b with lastConsensusTxsSequence := some sequence }
def setParams (params : Params) : Run W Unit := onStore fun b => { b with params := params }

@[simp] theorem run_getStore (s : State W) : (getStore : Run W Store).run s = .ok s.bridge s := rfl

@[simp] theorem run_onStore (f : Store → Store) (s : State W) :
    (onStore f : Run W Unit).run s = .ok () { s with bridge := f s.bridge } := rfl

theorem run_mustGet_some {key : Store → Option α} {text : String} {s : State W} {a : α}
    (h : key s.bridge = some a) : (mustGet key text : Run W α).run s = .ok a s := by
  simp [mustGet, EStateM.run_bind, h]

theorem run_mustGet_none {key : Store → Option α} {text : String} {s : State W}
    (h : key s.bridge = none) : (mustGet key text : Run W α).run s = .error (.panic (str text)) s := by
  simp [mustGet, EStateM.run_bind, h]

@[simp] theorem run_getStore_eq_ok {b : Store} {s t : State W} :
    (getStore : Run W Store).run s = .ok b t ↔ s.bridge = b ∧ t = s := by
  rw [run_getStore, EStateM.Result.ok.injEq]
  exact and_congr_right fun _ => eq_comm

@[simp] theorem run_onStore_eq_ok {f : Store → Store} {s t : State W} {u : Unit} :
    (onStore f : Run W Unit).run s = .ok u t ↔ t = { s with bridge := f s.bridge } := by
  rw [run_onStore, EStateM.Result.ok.injEq]
  exact ⟨fun h => h.2.symm, fun h => ⟨rfl, h.symm⟩⟩

@[simp] theorem run_mustGet_eq_ok {key : Store → Option α} {text : String} {s t : State W} {a : α} :
    (mustGet key text : Run W α).run s = .ok a t ↔ key s.bridge = some a ∧ t = s := by
  cases h : key s.bridge with
  | some b =>
    rw [run_mustGet_some h, EStateM.Result.ok.injEq, Option.some.injEq]
    exact and_congr_right fun _ => eq_comm
  | none =>
    rw [run_mustGet_none h]
    simp

/-- Reading a key changes nothing, however it ends. -/
theorem final_mustGet (key : Store → Option α) (text : String) (s : State W) :
    final ((mustGet key text : Run W α).run s) = s := by
  cases h : key s.bridge with
  | some a => rw [run_mustGet_some h]; rfl
  | none => rw [run_mustGet_none h]; rfl

theorem run_inWorld_of_ok {x : Prog GoString W α} {s : State W} {a : α} {w : W}
    (h : x.run s.world = .ok a w) : (inWorld x).run s = .ok a { s with world := w } :=
  run_zoom_of_ok h

theorem run_inWorld_of_error {x : Prog GoString W α} {s : State W} {e : Fault GoString} {w : W}
    (h : x.run s.world = .error e w) : (inWorld x).run s = .error e { s with world := w } :=
  run_zoom_of_error h

/-! ## What a computation leaves alone -/

/-- An observation of the state that the other modules cannot change. -/
def OutsideWorld {γ : Type} (g : State W → γ) : Prop := ∀ s w, g { s with world := w } = g s

theorem outsideWorld_bridge : OutsideWorld (State.bridge (W := W)) := fun _ _ => rfl

theorem outsideWorld_sequencing : OutsideWorld (State.sequencing (W := W)) := fun _ _ => rfl

theorem keeps_inWorld {γ : Type} {g : State W → γ} (hg : OutsideWorld g) (x : Prog GoString W α) :
    Keeps g (inWorld x) := by
  intro s
  rw [inWorld, final_zoom]
  exact hg s _

theorem keeps_onStore (f : Store → Store) : Keeps State.sequencing (onStore f : Run W Unit) := fun _ => rfl

theorem keeps_mustGet {γ : Type} (g : State W → γ) (key : Store → Option α) (text : String) :
    Keeps g (mustGet key text : Run W α) := fun s => by rw [final_mustGet]

end FuelSequencer.Bridge
