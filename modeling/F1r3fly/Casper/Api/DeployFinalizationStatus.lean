import F1r3fly.BlockStorage.KeyValueBlockStore
import F1r3fly.BlockStorage.MainChain
import F1r3fly.Data.Worklist

/-! The status of a deploy, found by a scan of the finalized blocks that are not older than
the lifespan of a deploy. -/
namespace F1r3fly.Casper.DeployFinalizationStatus

open BlockStorage
open Models
open RSpace
open Results (Fallible)

inductive ApiError where
  | report (message : String)
  | kvStoreError (error : KvStoreError)
  | corruption (sig : ByteVector) (blockHash : BlockHash)
deriving DecidableEq

inductive DeployFinalizationState where
  | finalized
  | failed
  | pending
  | expired
deriving DecidableEq

structure Status where
  state : DeployFinalizationState
  rejectionCount : UInt32
  latestBlockHash : Option BlockHash
deriving DecidableEq

def Status.pendingUnknown : Status := ⟨.pending, 0, none⟩

/-- What the scan has found for a signature. Of each kind of event it keeps the highest one. -/
structure ResolverState where
  validAfterBlockNumber : Int64
  firstSeenBlockHash : BlockHash
  rejectionCount : UInt32 := 0
  failedFinalizedEvent : Option (Int64 × BlockHash) := none
  cleanFinalizedEvent : Option (Int64 × BlockHash) := none
  latestEvent : Option (Int64 × BlockHash) := none
  latestRejectedEvent : Option (Int64 × BlockHash) := none

inductive PreludeOutcome where
  | active (state : ResolverState)
  | unknown

def runPrelude (dag : KeyValueDagRepresentation) (blockStore : KeyValueBlockStore)
    (sig : ByteVector) : Except ApiError PreludeOutcome :=
  match dag.deployIndex.get? sig with
  | none => .ok .unknown
  | some firstSeenBlockHash =>
    match blockStore.get? firstSeenBlockHash with
    | none => .ok .unknown
    | some firstSeenBlock =>
      match firstSeenBlock.body.deploys.find? fun pd => pd.deploy.sig == sig with
      | some pd => .ok (.active
          { validAfterBlockNumber := pd.deploy.data.validAfterBlockNumber, firstSeenBlockHash })
      | none => .error (.corruption sig firstSeenBlockHash)

def highest (known : Option (Int64 × BlockHash)) (event : Int64 × BlockHash) :
    Option (Int64 × BlockHash) :=
  if (known.map fun kept => decide (event.1 > kept.1)).getD true then some event else known

namespace ResolverState

def recordDeploy (event : Int64 × BlockHash) (isFailed : Bool) (state : ResolverState) :
    ResolverState :=
  if isFailed then
    { state with failedFinalizedEvent := highest state.failedFinalizedEvent event }
  else { state with cleanFinalizedEvent := highest state.cleanFinalizedEvent event }

/-- The count saturates. -/
def recordRejected (event : Int64 × BlockHash) (state : ResolverState) : ResolverState :=
  { state with
    rejectionCount :=
      if state.rejectionCount = 0xFFFFFFFF then state.rejectionCount else state.rejectionCount + 1
    latestRejectedEvent := highest state.latestRejectedEvent event }

def recordLatest (event : Int64 × BlockHash) (state : ResolverState) : ResolverState :=
  { state with latestEvent := highest state.latestEvent event }

end ResolverState

abbrev PerSig := HashedMap ByteVector ResolverState

abbrev BlockScan := HashedSet ByteVector × PerSig

def scanDeploy (activeSigs : HashedSet ByteVector) (event : Int64 × BlockHash) (scan : BlockScan)
    (pd : ProcessedDeploy) : BlockScan :=
  if activeSigs.contains pd.deploy.sig then
    (scan.1.insert pd.deploy.sig, scan.2.update pd.deploy.sig (·.recordDeploy event pd.isFailed))
  else scan

def scanRejected (activeSigs : HashedSet ByteVector) (event : Int64 × BlockHash)
    (scan : BlockScan) (sig : ByteVector) : BlockScan :=
  if activeSigs.contains sig then
    (scan.1.insert sig, scan.2.update sig (·.recordRejected event))
  else scan

section Scan

variable [HashMapOrder]

def scanBlock (activeSigs : HashedSet ByteVector) (event : Int64 × BlockHash)
    (block : BlockMessage) (perSig : PerSig) : PerSig :=
  let deploys := block.body.deploys.foldl (scanDeploy activeSigs event) (.empty, perSig)
  let (seenSigsHere, perSig) :=
    block.body.rejectedDeploys.foldl (scanRejected activeSigs event) deploys
  seenSigsHere.iter.foldl (fun perSig sig => perSig.update sig (·.recordLatest event)) perSig

def scanned (dag : KeyValueDagRepresentation) (blockStore : KeyValueBlockStore)
    (floor : Int64) (candidateHash : BlockHash) : Option (Int64 × BlockMessage) :=
  (dag.blockNumberMap.get? candidateHash).bind fun height =>
    if height < floor then none
    else (blockStore.get? candidateHash).map fun block => (height, block)

/-- The frontier is a stack. The loop skips the blocks that it does not scan. -/
def scanFrontier (dag : KeyValueDagRepresentation) (blockStore : KeyValueBlockStore)
    (floor : Int64) (activeSigs : HashedSet ByteVector) :
    Nat → List BlockHash → HashedSet BlockHash → PerSig → Option PerSig
  | _, [], _, perSig => some perSig
  | 0, _ :: _, _, _ => none
  | fuel + 1, candidateHash :: frontier, visited, perSig =>
    if visited.contains candidateHash then
      scanFrontier dag blockStore floor activeSigs fuel frontier visited perSig
    else
      let visited := visited.insert candidateHash
      match scanned dag blockStore floor candidateHash with
      | none => scanFrontier dag blockStore floor activeSigs fuel frontier visited perSig
      | some (height, block) =>
        let parents := block.header.parentsHashList.filter fun parent => !visited.contains parent
        scanFrontier dag blockStore floor activeSigs fuel (parents.reverse ++ frontier) visited
          (scanBlock activeSigs (height, candidateHash) block perSig)

def storedParents (blockStore : KeyValueBlockStore) : List BlockHash :=
  blockStore.entries.flatMap fun entry => entry.2.header.parentsHashList

def missingNumber (lfbHash : BlockHash) : ApiError :=
  .report ("deploy_finalization_status: LFB " ++ PrettyPrinter.buildStringBytes lfbHash ++
    " has no block_number entry")

def scanFloor (lfbHeight deployLifespan : Int64) : Int64 := max (lfbHeight - deployLifespan) 0

def bfsFinalizedWindow (dag : KeyValueDagRepresentation) (blockStore : KeyValueBlockStore)
    (deployLifespan : Int64) (perSig : PerSig) : Fallible ApiError PerSig :=
  if perSig.entries.isEmpty then pure perSig
  else
    let lfbHash := dag.lastFinalizedBlockHash
    match dag.blockNumberMap.get? lfbHash with
    | none => throw (missingNumber lfbHash)
    | some lfbHeight =>
      ExceptT.lift (scanFrontier dag blockStore (scanFloor lfbHeight deployLifespan)
        (.ofList perSig.keys) ((storedParents blockStore).length + 1) [lfbHash] .empty perSig)

end Scan

section Finalize

variable (dag : KeyValueDagRepresentation)

def isInMainChain (ancestor descendant : BlockHash) : Fallible ApiError Bool :=
  (dag.isInMainChain ancestor descendant).mapError .kvStoreError

def canonicalBlock (block : BlockHash) : Fallible ApiError Bool :=
  if block == dag.lastFinalizedBlockHash then pure true
  else isInMainChain dag block dag.lastFinalizedBlockHash

/-- A rejection on the main chain drops an inclusion that is not on it, or below. -/
def cleanCanonical (state : ResolverState) : Fallible ApiError (Option (Int64 × BlockHash)) :=
  match state.cleanFinalizedEvent, state.latestRejectedEvent with
  | some (height, cleanBlock), some (_, rejectBlock) => do
    let rejectIsCanonical ← canonicalBlock dag rejectBlock
    let cleanIsCanonical ← canonicalBlock dag cleanBlock
    if !cleanIsCanonical && rejectIsCanonical then pure none
    else if rejectIsCanonical && cleanBlock != rejectBlock then do
      let below ← isInMainChain dag cleanBlock rejectBlock
      pure (if below then none else some (height, cleanBlock))
    else pure (some (height, cleanBlock))
  | clean, _ => pure clean

def failedCanonical (state : ResolverState) : Fallible ApiError (Option (Int64 × BlockHash)) :=
  match state.failedFinalizedEvent with
  | none => pure none
  | some (height, failedBlock) => do
    if ← canonicalBlock dag failedBlock then
      match state.latestRejectedEvent with
      | none => pure (some (height, failedBlock))
      | some (_, rejectBlock) => do
        let rejectIsCanonical ← canonicalBlock dag rejectBlock
        if failedBlock != rejectBlock && rejectIsCanonical then do
          let below ← isInMainChain dag failedBlock rejectBlock
          pure (if below then none else some (height, failedBlock))
        else pure (some (height, failedBlock))
    else pure none

def cleanFinalizedHeight :
    Option (Int64 × BlockHash) → Option (Int64 × BlockHash) → Option Int64
  | some (cleanHeight, _), some (failedHeight, _) =>
    if cleanHeight > failedHeight then some cleanHeight else none
  | some (cleanHeight, _), none => some cleanHeight
  | none, _ => none

def failedFinalized : Option (Int64 × BlockHash) → Option (Int64 × BlockHash) → Bool
  | some (cleanHeight, _), some (failedHeight, _) => failedHeight > cleanHeight
  | none, some _ => true
  | _, none => false

def finalState (clean failed : Option (Int64 × BlockHash)) (pastLifespan : Bool) :
    DeployFinalizationState :=
  let expired := pastLifespan && (cleanFinalizedHeight clean failed).isNone
  if failedFinalized clean failed then .failed
  else if (cleanFinalizedHeight clean failed).isSome then .finalized
  else if expired then .expired
  else .pending

def finalizeSigState (deployLifespan : Int64) (state : ResolverState) :
    Fallible ApiError Status := do
  let clean ← cleanCanonical dag state
  let failed ← failedCanonical dag state
  let latestEvent := state.latestEvent.or
    ((dag.blockNumberMap.get? state.firstSeenBlockHash).map fun height =>
      (height, state.firstSeenBlockHash))
  match dag.blockNumberMap.get? dag.lastFinalizedBlockHash with
  | none => throw (missingNumber dag.lastFinalizedBlockHash)
  | some lfbHeight =>
    let pastLifespan := decide (lfbHeight > state.validAfterBlockNumber + deployLifespan)
    pure ⟨finalState clean failed pastLifespan, state.rejectionCount, latestEvent.map (·.2)⟩

/-- The map has one entry. -/
def resolve [HashMapOrder] (blockStore : KeyValueBlockStore) (deployLifespan : Int64)
    (sig : ByteVector) : Fallible ApiError Status := do
  match ← liftM (runPrelude dag blockStore sig) with
  | .unknown => pure .pendingUnknown
  | .active state => do
    let perSig ← bfsFinalizedWindow dag blockStore deployLifespan
      ((HashedMap.empty : PerSig).insert sig state)
    let state ← ExceptT.lift (perSig.get? sig)
    finalizeSigState dag deployLifespan state

end Finalize

end F1r3fly.Casper.DeployFinalizationStatus
