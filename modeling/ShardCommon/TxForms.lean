import ShardCommon.ObjectSize

/-!
# The standard form of a transaction

`ToStandard` copies an extended transaction without the marker and the spent outputs, and `TxID`
hashes the same spans without copying them. Both first let `TxSize` find the end of the transaction
and then walk it again, with offset arithmetic of their own that checks nothing.
-/

namespace ShardCommon.Objfmt

open Go ShardCommon.Frame

/-- A round of the loop over the inputs of an extended transaction: the span from the outpoint to
the sequence number is written, the spent output is passed over. -/
def copyInput {σ : Type} (write : σ → Bytes → σ) (tx : Bytes) (state : σ × Nat) :
    SizeRun (σ × Nat) := do
  let start := state.2
  let off ← Run.add start 36
  let script ← varInt tx off
  let step ← Run.add script.2 script.1.toNat
  let step ← Run.add step 4
  let off ← Run.add off step
  let span ← bytesAt tx start off
  let off ← Run.add off 8
  let spent ← varInt tx off
  let step ← Run.add spent.2 spent.1.toNat
  let off ← Run.add off step
  pure (write state.1 span, off)

/-- `out = append(out, tx[start:off]...)`. -/
def toStandardInput : Bytes → Bytes × Nat → SizeRun (Bytes × Nat) :=
  copyInput fun out span => out ++ span

/-- `h.Write(tx[start:off])`; the state of the hash is what was written to it. -/
def txIDInput : Bytes → List Bytes × Nat → SizeRun (List Bytes × Nat) :=
  copyInput fun written span => written ++ [span]

/-- `ToStandard` on a transaction in the extended form. -/
def extendedToStandard (tx : Bytes) : SizeRun Bytes := do
  Run.make 1 ((tx.length : Int) - 10)
  let version ← bytesAt tx 0 4
  let inCount ← varInt tx 10
  let off ← Run.add 10 inCount.2
  let count ← bytesAt tx 10 off
  let state ← Run.iterate (toStandardInput tx) inCount.1.toNat (version ++ count, off)
  let rest ← bytesAt tx state.2 tx.length
  pure (state.1 ++ rest)

def toStandard (tx : Bytes) : SizeRun Bytes := do
  let n ← txSize tx
  let tx ← bytesAt tx 0 n
  if isEF tx then extendedToStandard tx else pure tx

/-- What `TxID` writes to the hash for a transaction in the extended form. -/
def extendedSpans (tx : Bytes) : SizeRun (List Bytes) := do
  let version ← bytesAt tx 0 4
  let inCount ← varInt tx 10
  let off ← Run.add 10 inCount.2
  let count ← bytesAt tx 10 off
  let state ← Run.iterate (txIDInput tx) inCount.1.toNat ([version, count], off)
  let rest ← bytesAt tx state.2 tx.length
  pure (state.1 ++ [rest])

/-- `TxID`, for any function in the place of SHA-256. -/
def txID (sha256 : Bytes → FixedBytes 32) (tx : Bytes) : SizeRun (FixedBytes 32) := do
  let n ← txSize tx
  let tx ← bytesAt tx 0 n
  if isEF tx then do
    let written ← extendedSpans tx
    pure (sha256 (sha256 written.flatten).val)
  else pure (sha256 (sha256 tx).val)

end ShardCommon.Objfmt
