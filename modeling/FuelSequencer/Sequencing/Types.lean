import FuelSequencer.Go.Basic
import FuelSequencer.Exec.Table
import FuelSequencer.Wire.Varint

/-! # Messages and stored values of the sequencing module

Each topic is stored under the key made of its id, and the keys of different ids differ.
-/
namespace FuelSequencer.Sequencing
open Go Wire Exec

/-- Keys are compared byte by byte. -/
instance linearOrderUInt8 : LinearOrder UInt8 where
  le_refl := UInt8.le_refl
  le_trans _ _ _ := UInt8.le_trans
  lt_iff_le_not_ge a b := by
    rw [UInt8.lt_iff_toNat_lt, UInt8.le_iff_toNat_le, UInt8.le_iff_toNat_le]
    omega
  le_antisymm _ _ := UInt8.le_antisymm
  le_total := UInt8.le_total
  toDecidableLE := inferInstance

structure Params where
  maxBlobSizeBytes : UInt64
  sequencerTxMaxBytes : UInt64
deriving DecidableEq, Repr

structure Topic where
  id : Bytes
  owner : GoString
  order : ℤ
deriving DecidableEq, Repr

/-- An order that was never filled is a nil integer. -/
structure MsgPostBlob where
  fromAddress : GoString
  topic : Bytes
  order : Option ℤ
  data : Bytes
deriving DecidableEq, Repr

structure MsgPostBlobResponse where
  nonce : ℤ
  fromAddress : GoString
  topic : Bytes
  order : Option ℤ
  data : Bytes
deriving DecidableEq, Repr

structure MsgUpdateParams where
  authority : GoString
  params : Params
deriving DecidableEq, Repr

def topicKey : Bytes := str "Topic/value/"

def topicKeyPrefix (topicId : Bytes) : Bytes := topicKey ++ topicId

theorem topicKeyPrefix_inj {id id' : Bytes} : topicKeyPrefix id = topicKeyPrefix id' ↔ id = id' := by
  rw [topicKeyPrefix, topicKeyPrefix, List.append_right_inj]

/-- The topics lie behind a prefix that no other key of the module begins with; `GetParams`
yields the zero params when none are stored, so they are a plain field. -/
structure Store where
  params : Params
  topics : Table Bytes Topic
deriving DecidableEq

namespace Store

def getTopic (b : Store) (topicId : Bytes) : Option Topic := b.topics.get (topicKeyPrefix topicId)

def setTopic (b : Store) (topic : Topic) : Store :=
  { b with topics := b.topics.set (topicKeyPrefix topic.id) topic }

/-- The iterator follows the order of the keys. -/
def getAllTopic (b : Store) : List Topic := b.topics.entries.map Prod.snd

@[simp] theorem getTopic_setTopic (b : Store) (topic : Topic) (id : Bytes) :
    (b.setTopic topic).getTopic id = if id = topic.id then some topic else b.getTopic id := by
  rw [getTopic, setTopic, Table.get_set]
  simp only [topicKeyPrefix_inj]
  rfl

end Store

end FuelSequencer.Sequencing
