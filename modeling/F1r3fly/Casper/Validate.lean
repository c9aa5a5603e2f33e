import F1r3fly.BlockStorage.BlockMetadataStore
import F1r3fly.Casper.Api.DeployFinalizationStatus
import F1r3fly.Casper.CasperSnapshot
import F1r3fly.Casper.Merging.DagMerger
import F1r3fly.Casper.Util.ProtoUtil
import F1r3fly.Shared.DagOps

/-! The checks that a received block has to pass. -/
namespace F1r3fly.Casper

open BlockStorage
open Models
open ProtoUtil
open RSpace
open Results (Fallible)
open Shared

inductive InvalidBlock where
  | invalidBlockHash
  | invalidRepeatDeploy
  | invalidBlockNumber
  | containsFutureDeploy
  | containsExpiredDeploy
deriving DecidableEq

inductive BlockError where
  | blockException (error : CasperError)
  | invalid (block : InvalidBlock)
deriving DecidableEq

inductive ValidBlock where
  | valid
deriving DecidableEq

abbrev ValidBlockProcessing := Except BlockError ValidBlock

/-- The verification functions of the known signature algorithms. -/
class SignatureVerifiers where
  verifier : String → Option (ByteVector → ByteVector → ByteVector → Bool)

namespace Validate

variable (b : BlockMessage)

def blockSignature [SignatureVerifiers] : Bool :=
  ((SignatureVerifiers.verifier b.sigAlgorithm).map fun verify =>
    verify b.blockHash b.sig b.sender).getD false

def blockHash [Blake2b] [ProstMessage Header] [ProstMessage BodyProto] : ValidBlockProcessing :=
  if b.blockHash = hashBlock b then .ok .valid else .error (.invalid .invalidBlockHash)

/-- Whether a deploy is looked for in the ancestors. A deploy that a merge has rejected may be
included again, unless it is finalized. -/
def mustCheck [HashMapOrder] (s : CasperSnapshot) (blockStore : KeyValueBlockStore)
    (expirationThreshold : Int32) (processed : ProcessedDeploy) : Option Bool :=
  if s.rejectedInScope.contains processed.deploy.sig then do
    match ← (DeployFinalizationStatus.resolve s.dag blockStore expirationThreshold.toInt64
      processed.deploy.sig).run with
    | .ok status => return status.state = .finalized
    | .error _ => return true
  else some true

def deployKeySet [HashMapOrder] (s : CasperSnapshot) (blockStore : KeyValueBlockStore)
    (expirationThreshold : Int32) (block : BlockMessage) : Option (HashedSet DeployId) :=
  (deploys block).foldlM (fun keys processed => do
    if ← mustCheck s blockStore expirationThreshold processed then
      return keys.insert processed.deploy.sig
    else
      return keys) .empty

/-- The search expands every block once, which bounds the fuel. -/
def findDuplicate (dag : KeyValueDagRepresentation) (blockStore : KeyValueBlockStore)
    (initParents : List BlockMetadata) (earliestBlockNumber : Int64)
    (deployKeySet : HashedSet DeployId) : Fallible BlockError (Option BlockMetadata) :=
  DagOps.bfTraverseFind (initParents.length + dag.recordedParents.length + 1) initParents
    (fun metadata =>
      ((getParentMetadatasAboveBlockNumber metadata earliestBlockNumber dag).toOption).getD [])
    (fun metadata => blockStore.hasAnyDeploySigUnsafe metadata.blockHash deployKeySet)

def repeatDeploy [HashMapOrder] (block : BlockMessage) (s : CasperSnapshot)
    (blockStore : KeyValueBlockStore) (expirationThreshold : Int32) :
    Fallible BlockError ValidBlock := do
  let deployKeySet ← ExceptT.lift (deployKeySet s blockStore expirationThreshold block)
  if deployKeySet.isEmpty then
    return .valid
  else
    let blockMetadata := BlockMetadata.fromBlock block false none none
    let initParents ← liftM ((getParentsMetadata s.dag blockMetadata).mapError
      fun error => BlockError.blockException (.kvStoreError error))
    let maxBlockNumber := maxBlockNumberMetadata initParents
    let earliestBlockNumber := maxBlockNumber + 1 - expirationThreshold.toInt64
    match ← findDuplicate s.dag blockStore initParents earliestBlockNumber deployKeySet with
    | none => return .valid
    | some duplicatedBlockMetadata =>
      let duplicatedBlock ← blockStore.getUnsafe duplicatedBlockMetadata.blockHash
      let _ ← ExceptT.lift ((deploys duplicatedBlock).find? fun processed =>
        deployKeySet.contains processed.deploy.sig)
      throw (.invalid .invalidRepeatDeploy)

def lookupParent (s : CasperSnapshot) (parentHash : BlockHash) : Except BlockError BlockMetadata :=
  match s.dag.lookup parentHash with
  | some parentMetadata => .ok parentMetadata
  | none => .error (.blockException (.kvStoreError (.keyNotFound
      ("Block dag store was missing " ++ PrettyPrinter.buildStringBytes parentHash))))

def blockNumber (s : CasperSnapshot) : ValidBlockProcessing := do
  let parents ← (parentHashes b).mapM (lookupParent s)
  let maxBlockNumber : Int64 := parents.foldl (fun acc parent => max acc parent.blockNumber) (-1)
  if maxBlockNumber + 1 = ProtoUtil.blockNumber b then
    return .valid
  else
    .error (.invalid .invalidBlockNumber)

def futureTransaction : ValidBlockProcessing :=
  match (deploys b).find? fun processed =>
      processed.deploy.data.validAfterBlockNumber ≥ ProtoUtil.blockNumber b with
  | some _ => .error (.invalid .containsFutureDeploy)
  | none => .ok .valid

def transactionExpiration (expirationThreshold : Int32) : ValidBlockProcessing :=
  let earliestAcceptableValidAfterBlockNumber :=
    ProtoUtil.blockNumber b - expirationThreshold.toInt64
  match (deploys b).find? fun processed =>
      processed.deploy.data.validAfterBlockNumber ≤ earliestAcceptableValidAfterBlockNumber with
  | some _ => .error (.invalid .containsExpiredDeploy)
  | none => .ok .valid

end Validate

end F1r3fly.Casper
