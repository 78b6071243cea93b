import WalStore.Draw
import WalStore.Workload.Build

/-!
# Random workloads

Keys and values come from a handful, so that writes meet often: duplicates, deletes that find
something and deletes that do not.
-/

namespace WalStore.Workload

/-- One of four texts that start with a letter. -/
def drawText (letter : String) : Draw Bytes :=
  return .ofText (letter ++ toString (← Draw.below 4))

def drawKey : Draw Bytes := drawText "k"

def drawValue : Draw Bytes := drawText "v"

/-- A put in two cases of three. Half of the deletes name a value. -/
def drawWrite : Draw Write := do
  if ← Draw.chance 2 3 then return .put (← drawKey) (← drawValue)
  else
    let key ← drawKey
    if ← Draw.chance 1 2 then return .delete key (← drawValue) else return .delete key none

/-- An operation, in one case of four outside any transaction. -/
def drawOperation : Draw Operation := do
  let slot ← if ← Draw.chance 1 4 then pure none
    else pure (some (TxnId.ofNat ((← Draw.below maxTxns) + 1)))
  return ⟨slot, ← drawWrite⟩

/-- How and when a transaction ends; three of five commit. -/
def drawEnding : Draw Ending := do
  let i ← Draw.below 5
  let resolution := if i < 3 then .commit else if i = 3 then .abort else .unresolved
  return ⟨resolution, (← Draw.word).toNat⟩

/-- A workload of at most `maxOps` writes. -/
def draw (maxOps : Nat) : Draw Workload := do
  let ops ← Draw.times (← Draw.below (maxOps + 1)) drawOperation
  return build ops (← Draw.times maxTxns drawEnding)

end WalStore.Workload
