import F1r3fly.Crypto.Signed
import F1r3fly.Data.Results
import F1r3fly.RSpace.Hashing.Blake2bReference

/-! Block messages and the messages of the wire format, in both directions. A field of the wire
format has a default value, and some of the defaults stand for a field that is absent. -/
namespace F1r3fly.Models.Wire

open Crypto
open RSpace (Blake2b ByteVector)

/-- A field whose default stands for its absence. -/
def unlessDefault {α : Type} [DecidableEq α] (default value : α) : Option α :=
  if value = default then none else some value

section Defaults

variable {α : Type} [DecidableEq α] {default : α}

theorem getD_unlessDefault (value : α) : (unlessDefault default value).getD default = value := by
  by_cases absent : value = default <;> simp [unlessDefault, absent]

theorem unlessDefault_getD_iff :
    unlessDefault default (field.getD default) = field ↔ field ≠ some default := by
  cases field with
  | none => simp [unlessDefault]
  | some value => by_cases absent : value = default <;> simp [unlessDefault, absent]

end Defaults

def required (field : String) {α : Type} : Option α → Except String α
  | some value => .ok value
  | none => .error ("Missing " ++ field ++ " field")

def Event.fromProto (proto : EventProto) : Except String Event :=
  match proto.eventInstance with
  | some (.produce event) => .ok (.produce event)
  | some (.consume event) => .ok (.consume event)
  | some (.comm event) => do
    let consume ← required "consume" event.consume
    return .comm ⟨consume, event.produces, event.peeks⟩
  | none => .error "Received malformed Event: None"

theorem Event.fromProto_toProto (event : Event) :
    Event.fromProto (Event.toProto event) = .ok event := by
  cases event <;> rfl

theorem Event.mapM_fromProto (events : List Event) :
    (events.map Event.toProto).mapM Event.fromProto = .ok events :=
  Results.mapM_map_eq_ok.mpr fun event _ => Event.fromProto_toProto event

/-! Deploys and system deploys. -/

/-- The message that is signed: the deploy without its deployer and its signature. -/
def DeployData.unsignedProto (data : DeployData) : DeployDataProto where
  deployer := []
  term := data.term
  timestamp := data.timeStamp
  sig := []
  sigAlgorithm := ""
  phloPrice := data.phloPrice
  phloLimit := data.phloLimit
  validAfterBlockNumber := data.validAfterBlockNumber
  shardId := data.shardId
  language := ""
  expirationTimestamp := data.expirationTimestamp.getD 0

instance : ToMessage DeployData DeployDataProto := ⟨DeployData.unsignedProto⟩

def DeployData.ofProto (proto : DeployDataProto) : DeployData where
  term := proto.term
  timeStamp := proto.timestamp
  phloPrice := proto.phloPrice
  phloLimit := proto.phloLimit
  validAfterBlockNumber := proto.validAfterBlockNumber
  shardId := proto.shardId
  expirationTimestamp := unlessDefault 0 proto.expirationTimestamp

section Signatures

variable [Blake2b] [SignatureScheme] [Message DeployDataProto]

def DeployData.fromProto (proto : DeployDataProto) : Except String (Signed DeployData) :=
  match SignaturesAlgFactory.apply proto.sigAlgorithm with
  | none => .error ("Unknown signature algorithm: " ++ proto.sigAlgorithm)
  | some algorithm =>
    match fromSignedData (DeployData.ofProto proto) proto.deployer proto.sig algorithm with
    | some signed => .ok signed
    | none => .error "Invalid signature"

def ProcessedDeploy.fromProto (proto : ProcessedDeployProto) : Except String ProcessedDeploy := do
  let deployProto ← required "deploy" proto.deploy
  let deploy ← DeployData.fromProto deployProto
  let cost ← required "cost" proto.cost
  let deployLog ← proto.deployLog.mapM Event.fromProto
  return {
    deploy
    cost
    deployLog
    isFailed := proto.errored
    systemDeployError := unlessDefault "" proto.systemDeployError }

end Signatures

def SystemDeployData.fromProto (proto : SystemDeployDataProto) :
    Except String SystemDeployData := do
  match ← required "system deploy" proto.systemDeploy with
  | .slashSystemDeploy invalidBlockHash issuerPublicKey =>
    return .slash invalidBlockHash issuerPublicKey
  | .closeBlockSystemDeploy => return .closeBlockSystemDeployData

/-- Only an empty text marks a system deploy as succeeded. -/
def ProcessedSystemDeploy.fromProto (proto : ProcessedSystemDeployProto) :
    Except String ProcessedSystemDeploy := do
  let deployLog ← proto.deployLog.mapM Event.fromProto
  if proto.errorMsg = "" then
    let systemDeployProto ← required "system deploy" proto.systemDeploy
    let systemDeploy ← SystemDeployData.fromProto systemDeployProto
    return .succeeded deployLog systemDeploy
  else return .failed deployLog proto.errorMsg

theorem SystemDeployData.fromProto_toProto_iff :
    SystemDeployData.fromProto systemDeploy.toProto = .ok systemDeploy ↔ systemDeploy ≠ .empty := by
  cases systemDeploy <;> simp [SystemDeployData.fromProto, SystemDeployData.toProto, required, bind,
    Except.bind, pure, Except.pure]

/-- A failed system deploy has a text, and one that succeeded has its data. -/
def SystemReadable : ProcessedSystemDeploy → Prop
  | .succeeded _ systemDeploy => systemDeploy ≠ .empty
  | .failed _ errorMsg => errorMsg ≠ ""

theorem ProcessedSystemDeploy.fromProto_toProto_iff {processed : ProcessedSystemDeploy} :
    ProcessedSystemDeploy.fromProto (ProcessedSystemDeploy.toProto processed) = .ok processed ↔
      SystemReadable processed := by
  cases processed with
  | succeeded eventList systemDeploy =>
    rw [SystemReadable, ← SystemDeployData.fromProto_toProto_iff]
    simp only [ProcessedSystemDeploy.fromProto, ProcessedSystemDeploy.toProto, required,
      Event.mapM_fromProto]
    cases read : SystemDeployData.fromProto systemDeploy.toProto with
    | error failure => simp [read, bind, Except.bind]
    | ok again => simp [read, bind, Except.bind, pure, Except.pure]
  | failed eventList errorMsg =>
    simp only [ProcessedSystemDeploy.fromProto, ProcessedSystemDeploy.toProto, required,
      Event.mapM_fromProto, SystemReadable]
    by_cases blank : errorMsg = "" <;> simp [blank, bind, Except.bind, pure, Except.pure]

/-! Bodies and blocks. -/

structure BlockMessageProto where
  blockHash : ByteVector
  header : Option Header
  body : Option BodyProto
  justifications : List Justification
  sender : ByteVector
  seqNum : Int32
  sig : ByteVector
  sigAlgorithm : String
  shardId : String
  extraBytes : ByteVector

def BlockMessage.toProto (block : BlockMessage) : BlockMessageProto where
  blockHash := block.blockHash
  header := some block.header
  body := some (Body.toProto block.body)
  justifications := block.justifications
  sender := block.sender
  seqNum := block.seqNum
  sig := block.sig
  sigAlgorithm := block.sigAlgorithm
  shardId := block.shardId
  extraBytes := block.extraBytes

section Signatures

variable [Blake2b] [SignatureScheme] [Message DeployDataProto]

def Body.fromProto (proto : BodyProto) : Except String Body := do
  let state ← required "state" proto.state
  let deploys ← proto.deploys.mapM ProcessedDeploy.fromProto
  let systemDeploys ← proto.systemDeploys.mapM ProcessedSystemDeploy.fromProto
  return {
    state
    deploys
    rejectedDeploys := proto.rejectedDeploys
    systemDeploys
    extraBytes := proto.extraBytes }

def BlockMessage.fromProto (proto : BlockMessageProto) : Except String BlockMessage := do
  let header ← required "header" proto.header
  let bodyProto ← required "body" proto.body
  let body ← Body.fromProto bodyProto
  return {
    blockHash := proto.blockHash
    header
    body
    justifications := proto.justifications
    sender := proto.sender
    seqNum := proto.seqNum
    sig := proto.sig
    sigAlgorithm := proto.sigAlgorithm
    shardId := proto.shardId
    extraBytes := proto.extraBytes }

theorem DeployData.fromProto_toProto_iff (valid : ValidlySigned signed) :
    DeployData.fromProto (DeployData.toProto signed) = .ok signed ↔
      signed.sigAlgorithm = SignaturesAlg.name .secp256k1 ∧
        signed.data.expirationTimestamp ≠ some 0 := by
  obtain ⟨data, pk, sig, sigAlgorithm⟩ := signed
  obtain ⟨algorithm, named, verified⟩ := valid
  obtain rfl : algorithm.name = sigAlgorithm := named
  -- The signature is checked over what was read, which has the message of the original.
  have same_message : serialize (DeployData.ofProto (DeployData.toProto
      ⟨data, pk, sig, algorithm.name⟩)) = serialize data := by
    simp only [serialize, ToMessage.toMessage, DeployData.unsignedProto, DeployData.ofProto,
      DeployData.toProto, getD_unlessDefault]
  rw [← same_message] at verified
  have rebuilt := fromSignedData_of_verify verified
  simp only [DeployData.toProto] at rebuilt
  simp only [DeployData.fromProto, DeployData.toProto, SignaturesAlgFactory.apply_name]
  by_cases known : algorithm = .secp256k1
  · subst known
    simp only [if_true, rebuilt, true_and, ← unlessDefault_getD_iff]
    obtain ⟨term, timeStamp, phloPrice, phloLimit, validAfterBlockNumber,
      shardId, expiration⟩ := data
    simp [DeployData.ofProto]
  · have other : algorithm.name ≠ SignaturesAlg.name .secp256k1 :=
      fun same => known (SignaturesAlg.name_injective same)
    simp [known, other]

/-- No field of the deploy holds the value that stands for its absence, and the algorithm is one
that is found under its own name. -/
def Readable (processed : ProcessedDeploy) : Prop :=
  processed.deploy.sigAlgorithm = SignaturesAlg.name .secp256k1 ∧
    processed.deploy.data.expirationTimestamp ≠ some 0 ∧ processed.systemDeployError ≠ some ""

theorem ProcessedDeploy.fromProto_toProto_iff {processed : ProcessedDeploy}
    (valid : ValidlySigned processed.deploy) :
    ProcessedDeploy.fromProto (ProcessedDeploy.toProto processed) = .ok processed ↔
      Readable processed := by
  obtain ⟨deploy, cost, deployLog, isFailed, systemDeployError⟩ := processed
  rw [Readable, ← and_assoc, ← DeployData.fromProto_toProto_iff valid, ← unlessDefault_getD_iff]
  simp only [ProcessedDeploy.fromProto, ProcessedDeploy.toProto, required, Event.mapM_fromProto]
  cases read : DeployData.fromProto (DeployData.toProto deploy) with
  | error failure => simp [read, bind, Except.bind]
  | ok again => simp [read, bind, Except.bind, pure, Except.pure]

theorem Body.fromProto_toProto_iff
    (valid : ∀ processed ∈ body.deploys, ValidlySigned processed.deploy) :
    Body.fromProto (Body.toProto body) = .ok body ↔
      (∀ processed ∈ body.deploys, Readable processed) ∧
        ∀ processed ∈ body.systemDeploys, SystemReadable processed := by
  obtain ⟨state, deploys, rejectedDeploys, systemDeploys, extraBytes⟩ := body
  have deploys_iff : (deploys.map ProcessedDeploy.toProto).mapM ProcessedDeploy.fromProto =
      .ok deploys ↔ ∀ processed ∈ deploys, Readable processed := by
    rw [Results.mapM_map_eq_ok]
    exact forall₂_congr fun processed member =>
      ProcessedDeploy.fromProto_toProto_iff (valid processed member)
  have systemDeploys_iff : (systemDeploys.map ProcessedSystemDeploy.toProto).mapM
      ProcessedSystemDeploy.fromProto = .ok systemDeploys ↔
        ∀ processed ∈ systemDeploys, SystemReadable processed := by
    rw [Results.mapM_map_eq_ok]
    exact forall₂_congr fun processed _ => ProcessedSystemDeploy.fromProto_toProto_iff
  rw [← deploys_iff, ← systemDeploys_iff]
  simp only [Body.fromProto, Body.toProto, required]
  cases (deploys.map ProcessedDeploy.toProto).mapM ProcessedDeploy.fromProto with
  | error failure => simp [bind, Except.bind]
  | ok again =>
    cases (systemDeploys.map ProcessedSystemDeploy.toProto).mapM
        ProcessedSystemDeploy.fromProto with
    | error failure => simp [bind, Except.bind]
    | ok systemAgain =>
      simp [bind, Except.bind, pure, Except.pure]

/-- **A block survives the wire exactly when its deploys do.** What is lost or refused otherwise
is an expiration at zero, an error without a text, a system deploy without its data and a deploy
that is signed with another algorithm than `secp256k1`. -/
theorem BlockMessage.survives_wire_iff (block : BlockMessage)
    (valid : ∀ processed ∈ block.body.deploys, ValidlySigned processed.deploy) :
    BlockMessage.fromProto (BlockMessage.toProto block) = .ok block ↔
      (∀ processed ∈ block.body.deploys, Readable processed) ∧
        ∀ processed ∈ block.body.systemDeploys, SystemReadable processed := by
  rw [← Body.fromProto_toProto_iff valid]
  simp only [BlockMessage.fromProto, BlockMessage.toProto, required]
  cases read : Body.fromProto (Body.toProto block.body) with
  | error failure => simp [read, bind, Except.bind]
  | ok again =>
    obtain ⟨blockHash, header, body, justifications, sender, seqNum, sig, sigAlgorithm, shardId,
      extraBytes⟩ := block
    simp [read, bind, Except.bind, pure, Except.pure]

end Signatures

/-! Blocks with one deploy, under a scheme where every key signs alike. -/
section Instances

@[reducible] def sealScheme : SignatureScheme := ⟨fun _ _ signature _ => signature = [1], id⟩

attribute [local instance] RSpace.blake2b sealScheme

local instance : Message DeployDataProto := ⟨fun message => message.term.toUTF8.toList⟩

def blockOf (deploys : List ProcessedDeploy) (systemDeploys : List ProcessedSystemDeploy) :
    BlockMessage where
  blockHash := [9]
  header := ⟨[[8]], 100, 1, []⟩
  body := ⟨⟨[6], [7], [⟨[5], 10⟩], 3⟩, deploys, [], systemDeploys, []⟩
  justifications := [⟨[5], [8]⟩]
  sender := [5]
  seqNum := 1
  sig := [4]
  sigAlgorithm := "secp256k1"
  shardId := "root"
  extraBytes := []

def deployOf (algorithm : SignaturesAlg) (expirationTimestamp : Option Int64) : ProcessedDeploy :=
  .empty ⟨⟨"Nil", 99, 1, 1000, 0, "root", expirationTimestamp⟩, [2], [1], algorithm.name⟩

theorem deployOf_validlySigned (algorithm : SignaturesAlg) (expirationTimestamp : Option Int64) :
    ValidlySigned (deployOf algorithm expirationTimestamp).deploy :=
  ⟨algorithm, rfl, rfl⟩

theorem BlockMessage.survives_when_expiring :
    BlockMessage.fromProto (BlockMessage.toProto
      (blockOf [deployOf .secp256k1 (some 200)] [.failed [] "Slashing failed"])) =
        .ok (blockOf [deployOf .secp256k1 (some 200)] [.failed [] "Slashing failed"]) := by
  refine (BlockMessage.survives_wire_iff _ ?_).mpr ⟨?_, ?_⟩
  · simp [blockOf, deployOf_validlySigned]
  · simp [blockOf, Readable, deployOf, ProcessedDeploy.empty]
  · simp [blockOf, SystemReadable]

/-- An expiration at zero is lost, a failure without a text and a deploy that is signed for
Ethereum make the whole block unreadable. -/
theorem BlockMessage.altered_on_the_wire :
    ValidlySigned (deployOf .secp256k1 (some 0)).deploy ∧
    BlockMessage.fromProto (BlockMessage.toProto (blockOf [deployOf .secp256k1 (some 0)] [])) =
      .ok (blockOf [deployOf .secp256k1 none] []) ∧
    BlockMessage.fromProto (BlockMessage.toProto (blockOf [] [.failed [] ""])) =
      .error "Missing system deploy field" ∧
    ValidlySigned (deployOf .secp256k1Eth none).deploy ∧
    BlockMessage.fromProto (BlockMessage.toProto (blockOf [deployOf .secp256k1Eth none] [])) =
      .error "Unknown signature algorithm: secp256k1:eth" :=
  ⟨deployOf_validlySigned _ _, rfl, rfl, deployOf_validlySigned _ _, rfl⟩

end Instances

end F1r3fly.Models.Wire
