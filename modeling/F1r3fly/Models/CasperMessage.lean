import F1r3fly.RSpace.Hashing.Blake2b256Hash

/-! Blocks as they are sent and stored, with the deploys and the bonds they carry. -/
namespace F1r3fly.Models

open RSpace (ByteVector)

structure Header where
  parentsHashList : List ByteVector
  timestamp : Int64
  version : Int64
  extraBytes : ByteVector
deriving DecidableEq

structure Bond where
  validator : ByteVector
  stake : Int64
deriving DecidableEq

structure F1r3flyState where
  preStateHash : ByteVector
  postStateHash : ByteVector
  bonds : List Bond
  blockNumber : Int64
deriving DecidableEq

structure DeployData where
  term : String
  timeStamp : Int64
  phloPrice : Int64
  phloLimit : Int64
  validAfterBlockNumber : Int64
  shardId : String
  /-- Milliseconds after which the deploy is invalid. -/
  expirationTimestamp : Option Int64
deriving DecidableEq

namespace DeployData

def totalPhloCharge (data : DeployData) : Int64 := data.phloLimit * data.phloPrice

end DeployData

/-- The algorithm is given by its name. -/
structure Signed (A : Type) where
  data : A
  pk : ByteVector
  sig : ByteVector
  sigAlgorithm : String
deriving DecidableEq

structure ProduceEvent where
  channelsHash : ByteVector
  hash : ByteVector
  persistent : Bool
  timesRepeated : Int32
  isDeterministic : Bool
  outputValue : List ByteVector
  failed : Bool
deriving DecidableEq

structure ConsumeEvent where
  channelsHashes : List ByteVector
  hash : ByteVector
  persistent : Bool
deriving DecidableEq

structure CommEvent where
  consume : ConsumeEvent
  produces : List ProduceEvent
  /-- Indices of channels. -/
  peeks : List Int32
deriving DecidableEq

inductive Event where
  | produce (event : ProduceEvent)
  | consume (event : ConsumeEvent)
  | comm (event : CommEvent)
deriving DecidableEq

structure ProcessedDeploy where
  deploy : Signed DeployData
  cost : UInt64
  deployLog : List Event
  isFailed : Bool
  systemDeployError : Option String
deriving DecidableEq

namespace ProcessedDeploy

def refundAmount (processed : ProcessedDeploy) : Int64 :=
  max (processed.deploy.data.phloLimit - processed.cost.toInt64) 0 * processed.deploy.data.phloPrice

def empty (deploy : Signed DeployData) : ProcessedDeploy where
  deploy
  cost := 0
  deployLog := []
  isFailed := false
  systemDeployError := none

end ProcessedDeploy

inductive SystemDeployData where
  | slash (invalidBlockHash : ByteVector) (issuerPublicKey : ByteVector)
  | closeBlockSystemDeployData
  | empty
deriving DecidableEq

inductive ProcessedSystemDeploy where
  | succeeded (eventList : List Event) (systemDeploy : SystemDeployData)
  | failed (eventList : List Event) (errorMsg : String)
deriving DecidableEq

structure Body where
  state : F1r3flyState
  deploys : List ProcessedDeploy
  /-- The signatures of the rejected deploys. -/
  rejectedDeploys : List ByteVector
  systemDeploys : List ProcessedSystemDeploy
  extraBytes : ByteVector
deriving DecidableEq

structure Justification where
  validator : ByteVector
  latestBlockHash : ByteVector
deriving DecidableEq

structure BlockMessage where
  blockHash : ByteVector
  header : Header
  body : Body
  justifications : List Justification
  sender : ByteVector
  seqNum : Int32
  sig : ByteVector
  sigAlgorithm : String
  shardId : String
  extraBytes : ByteVector
deriving DecidableEq

/-! Messages of the wire format. Headers, states, justifications, produces, consumes, peeks and
rejected deploys are copied field by field, so their messages are the values themselves. -/

structure CommEventProto where
  consume : Option ConsumeEvent
  produces : List ProduceEvent
  peeks : List Int32

inductive EventInstance where
  | produce (event : ProduceEvent)
  | consume (event : ConsumeEvent)
  | comm (event : CommEventProto)

structure EventProto where
  eventInstance : Option EventInstance

structure DeployDataProto where
  deployer : ByteVector
  term : String
  timestamp : Int64
  sig : ByteVector
  sigAlgorithm : String
  phloPrice : Int64
  phloLimit : Int64
  validAfterBlockNumber : Int64
  shardId : String
  language : String
  expirationTimestamp : Int64

structure ProcessedDeployProto where
  deploy : Option DeployDataProto
  cost : Option UInt64
  deployLog : List EventProto
  errored : Bool
  systemDeployError : String

inductive SystemDeployProto where
  | slashSystemDeploy (invalidBlockHash issuerPublicKey : ByteVector)
  | closeBlockSystemDeploy

structure SystemDeployDataProto where
  systemDeploy : Option SystemDeployProto

structure ProcessedSystemDeployProto where
  systemDeploy : Option SystemDeployDataProto
  deployLog : List EventProto
  errorMsg : String

structure BodyProto where
  state : Option F1r3flyState
  deploys : List ProcessedDeployProto
  systemDeploys : List ProcessedSystemDeployProto
  extraBytes : ByteVector
  rejectedDeploys : List ByteVector

def CommEvent.toProto (event : CommEvent) : CommEventProto :=
  ⟨some event.consume, event.produces, event.peeks⟩

def Event.toProto : Event → EventProto
  | .produce event => ⟨some (.produce event)⟩
  | .consume event => ⟨some (.consume event)⟩
  | .comm event => ⟨some (.comm event.toProto)⟩

/-- A deploy without an expiration is written like one that expires at 0. -/
def DeployData.toProto (signed : Signed DeployData) : DeployDataProto where
  deployer := signed.pk
  term := signed.data.term
  timestamp := signed.data.timeStamp
  sig := signed.sig
  sigAlgorithm := signed.sigAlgorithm
  phloPrice := signed.data.phloPrice
  phloLimit := signed.data.phloLimit
  validAfterBlockNumber := signed.data.validAfterBlockNumber
  shardId := signed.data.shardId
  language := ""
  expirationTimestamp := signed.data.expirationTimestamp.getD 0

def ProcessedDeploy.toProto (processed : ProcessedDeploy) : ProcessedDeployProto where
  deploy := some (DeployData.toProto processed.deploy)
  cost := some processed.cost
  deployLog := processed.deployLog.map Event.toProto
  errored := processed.isFailed
  systemDeployError := processed.systemDeployError.getD ""

def SystemDeployData.toProto : SystemDeployData → SystemDeployDataProto
  | .slash invalidBlockHash issuerPublicKey =>
    ⟨some (.slashSystemDeploy invalidBlockHash issuerPublicKey)⟩
  | .closeBlockSystemDeployData => ⟨some .closeBlockSystemDeploy⟩
  | .empty => ⟨none⟩

def ProcessedSystemDeploy.toProto : ProcessedSystemDeploy → ProcessedSystemDeployProto
  | .succeeded eventList systemDeploy =>
    ⟨some systemDeploy.toProto, eventList.map Event.toProto, ""⟩
  | .failed eventList errorMsg => ⟨none, eventList.map Event.toProto, errorMsg⟩

def Body.toProto (body : Body) : BodyProto where
  state := some body.state
  deploys := body.deploys.map ProcessedDeploy.toProto
  systemDeploys := body.systemDeploys.map ProcessedSystemDeploy.toProto
  extraBytes := body.extraBytes
  rejectedDeploys := body.rejectedDeploys

end F1r3fly.Models
