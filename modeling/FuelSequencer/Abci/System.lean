import FuelSequencer.Abci.Minting
import FuelSequencer.Sidecar.Service

/-! # The chain and the sidecars of its validators

Each validator runs a sidecar of its own next to the chain. The sidecars fetch, prune,
stop and start again in any order and independently of each other; the chain commits
blocks that some validator accepted with the answers of its sidecar. Since all sidecars
read one Ethereum history, none of this changes what the chain delivers.
-/
namespace FuelSequencer.Abci
open Go Wire Exec Lib Bridge Wiring Sidecar

variable {W ι : Type} [DecidableEq ι] {app : App W} {c : EthRpcClient} {H : History}

structure System (W ι : Type) where
  chain : State W
  servers : ι → SidecarServer

def System.setServer (sys : System W ι) (v : ι) (ss : SidecarServer) : System W ι :=
  { sys with servers := Function.update sys.servers v ss }

inductive SystemLabel (ι : Type) where
  | operated (v : ι) (op : StoreOp)
  | started (v : ι)
  | stopped (v : ι)
  /-- The block was accepted by the validator. -/
  | block (v : ι) (l : Executed)

/-- What the app of a validator is answered: the answer of its server, unless the call fails. -/
def Served (ss : SidecarServer) (sidecar : Wiring.Sidecar) : Prop :=
  ∀ n response, sidecar n = .ok response → ss.getBlockEvents (some (formatUint n)) false = .ok response.events

/-- What the app is answered through a client. -/
def sidecarOf (getBlockEvents : GoString → Except GoString (List Event)) : Wiring.Sidecar := fun n =>
  match getBlockEvents (formatUint n) with
  | .error err => .error err
  | .ok events => if h : events.length < maxLen then .ok ⟨events, h⟩ else .error (str "message larger than max")

/-- The app's client of a server. -/
def SidecarServer.client (ss : SidecarServer) : Wiring.Sidecar :=
  sidecarOf (GRPCClient.getBlockEvents (some fun req => ss.getBlockEvents (some req) false))

/-- One part moves: a store performs an operation, with a height that the chain has reached; a
sidecar starts anew or stops; or the chain commits a block. -/
inductive SystemStep (app : App W) (c : EthRpcClient) (H : History) : System W ι → SystemLabel ι → System W ι → Prop
  | operated {sys : System W ι} {v : ι} {op : StoreOp} {st : EventStore}
      (hstep : StoreStep c H (sys.servers v).store op st)
      (hreport : ∀ {height : ℕ} {pruned}, op = .calibrated (some height) pruned →
        ∃ last, sys.chain.bridge.lastEthereumBlockSynced = some last ∧ height ≤ last.toNat) :
      SystemStep app c H sys (.operated v op) (sys.setServer v ⟨(sys.servers v).stopped, st⟩)
  | started {sys : System W ι} {v : ι} {grpcUrl : GoString} {unsafeStartBlock first : ℤ}
      {reported : Except GoString UInt64} (maxQueryRange : ℤ)
      (hfirst : startBlock grpcUrl unsafeStartBlock reported = .ok first) :
      SystemStep app c H sys (.started v) (sys.setServer v ⟨false, newEventStore first maxQueryRange⟩)
  | stopped {sys : System W ι} {v : ι} :
      SystemStep app c H sys (.stopped v) (sys.setServer v ⟨true, (sys.servers v).store⟩)
  | block {sys : System W ι} {v : ι} {l : Executed} {t : State W} (hcommit : CommitStep app sys.chain l t)
      (hserved : Served (sys.servers v) l.block.sidecar) :
      SystemStep app c H sys (.block v l) { sys with chain := t }

def SystemLabel.executed : SystemLabel ι → Option Executed
  | .block _ l => some l
  | _ => none

/-- The blocks of a run, with what they yielded. -/
def blocksOf (ls : List (SystemLabel ι)) : List Executed := ls.filterMap SystemLabel.executed

omit [DecidableEq ι] in
theorem blocksOf_snoc_none (ls : List (SystemLabel ι)) {label : SystemLabel ι} (h : label.executed = none) :
    blocksOf (ls ++ [label]) = blocksOf ls := by
  rw [blocksOf, List.filterMap_append, List.filterMap_cons_none h, List.filterMap_nil, List.append_nil]
  rfl

omit [DecidableEq ι] in
theorem blocksOf_snoc_block (ls : List (SystemLabel ι)) (v : ι) (l : Executed) :
    blocksOf (ls ++ [.block v l]) = blocksOf ls ++ [l] := by
  rw [blocksOf, List.filterMap_append]
  rfl

/-- The events of the Ethereum block with the number. -/
def ethereumHistory (c : EthRpcClient) (H : History) (n : UInt64) : List Event := H.events c n.toNat

/-! ## The invariant -/

/-- The chain has come to a position in the history, and every sidecar serves what follows. -/
structure Coherent (app : App W) (c : EthRpcClient) (H : History) (start : Cursor UInt64)
    (ls : List (SystemLabel ι)) (sys : System W ι) (last offset : UInt64) (delivered : List (List Event)) : Prop where
  chain : Minted app (ethereumHistory c H) start (blocksOf ls) sys.chain last offset delivered
  servers : ∀ v, Serving c H last.toNat (sys.servers v).store

/-- A change of one sidecar leaves the others as they are. -/
theorem Coherent.setServer {start : Cursor UInt64} {ls : List (SystemLabel ι)} {sys : System W ι}
    {last offset : UInt64} {delivered : List (List Event)} {label : SystemLabel ι} {v : ι} {ss : SidecarServer}
    (h : Coherent app c H start ls sys last offset delivered) (hlabel : label.executed = none)
    (hserving : Serving c H last.toNat ss.store) :
    Coherent app c H start (ls ++ [label]) (sys.setServer v ss) last offset delivered where
  chain := by
    rw [blocksOf_snoc_none ls hlabel]
    exact h.chain
  servers := by
    intro w
    change Serving c H last.toNat (Function.update sys.servers v ss w).store
    by_cases hw : w = v
    · rw [hw, Function.update_self]
      exact hserving
    · rw [Function.update_of_ne hw]
      exact h.servers w

/-- The answers of a serving sidecar are faithful to the history. -/
theorem faithful_of_served {s : State W} {last : UInt64} {ss : SidecarServer} {b : Block}
    (hlast : s.bridge.lastEthereumBlockSynced = some last) (hserving : Serving c H last.toNat ss.store)
    (hserved : Served ss b.sidecar) : b.Faithful (ethereumHistory c H) s := by
  intro last' response hlast' hanswer
  cases Option.some.inj (hlast.symm.trans hlast')
  exact (hserving.answers_next (hserved _ _ hanswer)).2

theorem Coherent.step (hlaw : app.Lawful) (hinjective : Function.Injective app.sdk.accAddressString)
    (hsealed : Sealed app) {start : Cursor UInt64} {ls : List (SystemLabel ι)} {sys sys' : System W ι}
    {last offset : UInt64} {delivered : List (List Event)} {label : SystemLabel ι}
    (h : Coherent app c H start ls sys last offset delivered) (hstep : SystemStep app c H sys label sys') :
    ∃ last' offset' delivered', Coherent app c H start (ls ++ [label]) sys' last' offset' delivered' ∧
      last.toNat ≤ last'.toNat := by
  cases hstep with
  | @operated v op st hop hreport =>
    refine ⟨last, offset, delivered, h.setServer rfl ?_, le_rfl⟩
    refine (h.servers v).step hop fun {height pruned} heq => ?_
    obtain ⟨last', hlast', hle⟩ := hreport heq
    cases Option.some.inj (h.chain.hasLast.symm.trans hlast')
    exact hle
  | started maxQueryRange hfirst =>
    exact ⟨last, offset, delivered, h.setServer rfl (serving_new (startBlock_pos hfirst) maxQueryRange _), le_rfl⟩
  | @stopped v => exact ⟨last, offset, delivered, h.setServer rfl (h.servers v), le_rfl⟩
  | @block v l t hcommit hserved =>
    have hfaithful := faithful_of_served h.chain.hasLast (h.servers v) hserved
    obtain ⟨last', offset', events, hnext, hmoved⟩ :=
      h.chain.step hlaw hinjective hsealed hcommit hfaithful
    have hle : last.toNat ≤ last'.toNat := by
      rcases hmoved with rfl | ⟨rfl, response, hanswer⟩
      · exact le_rfl
      · rw [((h.servers v).answers_next (hserved _ _ hanswer)).1]
        exact Nat.le_succ _
    refine ⟨last', offset', delivered ++ [events], ⟨?_, fun w => (h.servers w).mono hle⟩, hle⟩
    rw [blocksOf_snoc_block]
    exact hnext

end FuelSequencer.Abci
