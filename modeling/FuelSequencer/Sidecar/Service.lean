import FuelSequencer.Sidecar.Process
import FuelSequencer.Lib.Numeral

/-! # The service around the store

The server reads the number of a block from a text and answers from the store. The app
asks for the block after the last one synced, in decimal; with the sidecar disabled it
asks nobody and every block looks empty.
-/
namespace FuelSequencer.Sidecar
open Go Wire Exec Lib Bridge Wiring

/-! ## The server -/

structure SidecarServer where
  stopped : Bool
  store : EventStore

/-- The answer to a request, which may be nil; a cancelled context does not wait for it. -/
def SidecarServer.getBlockEvents (ss : SidecarServer) (req : Option GoString) (cancelled : Bool) :
    Except GoString (List Event) := do
  match req with
  | none => .error (str "nil request")
  | some blockNumber =>
    failIf (ss.stopped = true) (str "sidecar not running")
    match setString blockNumber with
    | none => .error (str "invalid block number")
    | some blockNumber =>
      failIf (cancelled = true) (str "context canceled")
      ss.store.queryBlockEvents blockNumber

/-- The text of a block number in a request. -/
def formatUint (blockNumber : UInt64) : GoString := decimal blockNumber.toNat

/-! ## The clients of the app -/

/-- The client of a remote server; there is none before it was started. -/
def GRPCClient.getBlockEvents (client : Option (GoString → Except GoString (List Event))) (req : GoString) :
    Except GoString (List Event) :=
  match client with
  | none => .error (str "sidecar client not started")
  | some remote => remote req

/-- The client when the sidecar is disabled. -/
def NoOpClient.getBlockEvents (_ : GoString) : Except GoString (List Event) := .ok []

/-! ## The first block -/

/-- The flag's block, or else the one behind the block that the Sequencer reports; zero if neither
is known. -/
def chosenStartBlock (unsafeStartBlock : ℤ) (lastEthereumBlockSynced : Except GoString UInt64) : ℤ :=
  let startBlock := if unsafeStartBlock > 0 then unsafeStartBlock else 0
  if unsafeStartBlock = 0 then
    match lastEthereumBlockSynced with
    | .ok last => if (last.toNat : ℤ) + 1 > startBlock then (last.toNat : ℤ) + 1 else startBlock
    | .error _ => startBlock
  else startBlock

/-- Where a new store starts. -/
def startBlock (grpcUrl : GoString) (unsafeStartBlock : ℤ) (lastEthereumBlockSynced : Except GoString UInt64) :
    Except GoString ℤ := do
  let startBlock := chosenStartBlock unsafeStartBlock lastEthereumBlockSynced
  failIf (startBlock = 0) (str "did not find a start block, but maybe Sequencer hasn't started; " ++
    str "ensure Sequencer is available at " ++ grpcUrl)
  return startBlock

theorem startBlock_pos {grpcUrl : GoString} {unsafeStartBlock first : ℤ} {last : Except GoString UInt64}
    (h : startBlock grpcUrl unsafeStartBlock last = .ok first) : 1 ≤ first := by
  obtain ⟨_, hne, h⟩ := except_bind_eq_ok.mp h
  rw [failIf_eq_ok] at hne
  obtain rfl := Except.ok.inj h
  have hnonneg : 0 ≤ chosenStartBlock unsafeStartBlock last := by
    unfold chosenStartBlock
    cases last <;> dsimp only <;> split_ifs <;> omega
  omega

/-! ## Answers -/

variable {c : EthRpcClient} {H : History} {ss : SidecarServer}

/-- An answered request names a number, and the answer is that of the store for it. -/
theorem getBlockEvents_eq_ok {req : Option GoString} {cancelled : Bool} {events : List Event}
    (h : ss.getBlockEvents req cancelled = .ok events) : ss.stopped = false ∧ ∃ text n, req = some text ∧
      setString text = some n ∧ ss.store.queryBlockEvents n = .ok events := by
  unfold SidecarServer.getBlockEvents at h
  cases req with
  | none => cases h
  | some text =>
    obtain ⟨_, hstopped, h⟩ := except_bind_eq_ok.mp h
    cases hn : setString text with
    | none =>
      rw [hn] at h
      cases h
    | some n =>
      rw [hn] at h
      obtain ⟨_, -, h⟩ := except_bind_eq_ok.mp h
      exact ⟨by simpa using hstopped, text, n, rfl, hn, h⟩

/-- The request of the app reaches the store with the same number. -/
theorem queryBlockEvents_of_request {n : UInt64} {cancelled : Bool} {events : List Event}
    (h : ss.getBlockEvents (some (formatUint n)) cancelled = .ok events) :
    ss.store.queryBlockEvents n.toNat = .ok events := by
  obtain ⟨-, text, m, htext, hm, hquery⟩ := getBlockEvents_eq_ok h
  cases htext
  rw [formatUint, setString_decimal] at hm
  rw [Option.some.inj hm]
  exact hquery

/-- The store of a server while the Sequencer has synced the blocks up to `last`: it starts after
block zero and was told of no height above. -/
structure Serving (c : EthRpcClient) (H : History) (last : ℕ) (st : EventStore) : Prop where
  exists_run : ∃ first ops, 1 ≤ first ∧ first ≤ st.startQueryBlock ∧ Represents c H first ops st ∧
    ∀ height, Reported ops height → height ≤ last

theorem serving_new {first : ℤ} (h : 1 ≤ first) (maxQueryRange : ℤ) (last : ℕ) :
    Serving c H last (newEventStore first maxQueryRange) where
  exists_run := by
    refine ⟨first, [], h, le_rfl, represents_new (by omega) maxQueryRange, ?_⟩
    rintro height ⟨pruned, hmem⟩
    cases hmem

theorem Serving.sound {last : ℕ} {st : EventStore} (h : Serving c H last st) : Sound c H st := by
  obtain ⟨_, _, -, -, hrep, -⟩ := h.exists_run
  exact hrep.sound

theorem Serving.mono {last last' : ℕ} {st : EventStore} (h : Serving c H last st) (hle : last ≤ last') :
    Serving c H last' st := by
  obtain ⟨first, ops, hfirst, hstart, hrep, hreported⟩ := h.exists_run
  exact ⟨first, ops, hfirst, hstart, hrep, fun height hheight => (hreported height hheight).trans hle⟩

theorem Serving.step {last : ℕ} {st st' : EventStore} {op : StoreOp} (h : Serving c H last st)
    (hstep : StoreStep c H st op st')
    (hreport : ∀ {height : ℕ} {pruned}, op = .calibrated (some height) pruned → height ≤ last) :
    Serving c H last st' := by
  obtain ⟨first, ops, hfirst, hstart, hrep, hreported⟩ := h.exists_run
  obtain ⟨-, hle, -⟩ := hrep.sound.step hstep
  refine ⟨first, ops ++ [op], hfirst, hstart.trans hle, hrep.step hstep, ?_⟩
  rintro height ⟨pruned, hmem⟩
  rcases List.mem_append.mp hmem with hmem | hmem
  · exact hreported height ⟨pruned, hmem⟩
  · exact hreport (List.mem_singleton.mp hmem).symm

/-- Above the height that was synced, an answer holds exactly the events of the block. -/
theorem Serving.query {last n : ℕ} {st : EventStore} (h : Serving c H last st) (hn : n < 2 ^ 64)
    (habove : n = 0 ∨ last < n) {events : List Event} (hq : st.queryBlockEvents n = .ok events) :
    n ≠ 0 ∧ events = H.events c n := by
  obtain ⟨first, ops, hfirst, hstart, hrep, hreported⟩ := h.exists_run
  have hanswer := queryBlockEvents_eq_ok hq
  rw [Nat.mod_eq_of_lt hn] at hanswer
  have hpos : n ≠ 0 := by
    rintro rfl
    rcases hanswer with ⟨block, hget, -⟩ | ⟨-, -, hlo, -⟩
    · have hin := hrep.sound.within hget
      omega
    · omega
  refine ⟨hpos, ?_⟩
  rcases hanswer with ⟨block, hget, rfl⟩ | ⟨hget, rfl, hlo, hhi⟩
  · exact events_of_blockOf (hrep.sound.exact hget)
  · have hheld := hrep.held n (by omega) hhi fun height hheight => by
      have hle := hreported height hheight
      omega
    rw [hget, blockOf] at hheld
    split at hheld
    · next hnil => exact hnil.symm
    · cases hheld

/-- The next query of the Sequencer is answered by the events of the next block, and never after
the last number that a block can have. -/
theorem Serving.answers_next {last : UInt64} (h : Serving c H last.toNat ss.store) {events : List Event}
    {cancelled : Bool} (hq : ss.getBlockEvents (some (formatUint (last + 1))) cancelled = .ok events) :
    (last + 1).toNat = last.toNat + 1 ∧ events = H.events c (last + 1).toNat := by
  have hquery := queryBlockEvents_of_request hq
  have hsum : (last + 1).toNat = (last.toNat + 1) % 2 ^ 64 := by
    rw [UInt64.toNat_add]
    rfl
  have hlt := last.toNat_lt
  obtain ⟨hne, hevents⟩ := h.query (last + 1).toNat_lt (by omega) hquery
  exact ⟨by omega, hevents⟩

end FuelSequencer.Sidecar
