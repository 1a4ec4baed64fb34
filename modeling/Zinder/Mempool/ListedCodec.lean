import Zinder.Core.ListedCodec
import Zinder.Mempool.EventStore

/-!
# Zinder.Mempool.ListedCodec

The law asked of the event codec can be met: log records are countable, so a numbering of them,
written in unary, is an encoding with a round trip. Chosen records get the first numbers, so their
rows compute.
-/

namespace Zinder.Mempool

open ListedNumber

deriving instance Countable for CompactTransparentOutput, MempoolEvictionReason

instance : Countable MempoolEntry :=
  Function.Injective.countable (f := fun e : MempoolEntry => (e.transactionId, e.authDigest,
    e.rawTransactionBytes, e.compactOutputs, e.compactInputs, e.firstSeenUnixMillis))
    (by rintro ⟨⟩ ⟨⟩ h; simpa using h)

deriving instance Countable for MempoolEvent

deriving instance Countable for MempoolEventEnvelopeRecord

/-- A codec in unary, with the chosen records first. -/
noncomputable def listedEventCodec (records : List MempoolEventEnvelopeRecord) : EventCodec where
  encode r := List.replicate (number records r) 0
  decode bytes := okOr (value? records bytes.length) "mempool event envelope record is unknown"
  decode_encode r _ := by simp

/-- A cursor authority that tags every body with the key. -/
def keyTagAuthority : CursorAuthority where
  network := .zcashRegtest
  cursorAuthKey := repeatedByte 7
  authTag key _ := key

/-- An environment in which the events of one log encode to their positions in it. -/
noncomputable def listedLogEnv (log : List ObservedEvent) : LogEnv where
  authority := keyTagAuthority
  codec := listedEventCodec ((log.zipIdx 1).map fun os => ⟨os.2, os.1.2, os.1.1⟩)

def plainEntry (id : TransactionId) (inputs : List TransparentOutPoint) : MempoolEntry where
  transactionId := id
  authDigest := none
  rawTransactionBytes := id.bytes
  compactOutputs := [⟨1000, [], repeatedByte 5⟩]
  compactInputs := inputs
  firstSeenUnixMillis := 0
  outputs_indexable := by decide

def byteId (b : UInt8) : Bytes32 := repeatedByte b

end Zinder.Mempool
