import F1r3fly.Casper.Util.ProtoUtil
import F1r3fly.Data.Protobuf

/-! The header and the body of a block as they are written, with the numbers of the fields. -/
namespace F1r3fly.Casper.ProtoUtil

open Models
open Protobuf
open RSpace (ByteVector)

def text (value : String) : List Payload := blob (asBytes value)

@[simp] theorem text_inj : text a = text b ↔ a = b :=
  blob_inj.trans asBytes_injective.eq_iff

def flag (value : Bool) : List Payload := scalar value.toNat

@[simp] theorem flag_inj : flag a = flag b ↔ a = b := by
  cases a <;> cases b <;> simp [flag, scalar]

def optional [Message M] (message : Option M) : List Payload := messages message.toList

@[simp] theorem optional_inj [Message M] {a b : Option M} : optional a = optional b ↔ a = b := by
  cases a <;> cases b <;> simp [optional]

scoped instance : Message Header where
  numbers := [1, 5, 6, 7]
  fields header := [blobs header.parentsHashList, int64 header.timestamp, int64 header.version,
    blob header.extraBytes]
  fields_injective := by
    rintro ⟨⟩ ⟨⟩ same
    simpa using same

scoped instance : Message Bond where
  numbers := [1, 2]
  fields bond := [blob bond.validator, int64 bond.stake]
  fields_injective := by
    rintro ⟨⟩ ⟨⟩ same
    simpa using same

scoped instance : Message F1r3flyState where
  numbers := [1, 2, 3, 4]
  fields state := [blob state.preStateHash, blob state.postStateHash, messages state.bonds,
    int64 state.blockNumber]
  fields_injective := by
    rintro ⟨⟩ ⟨⟩ same
    simpa using same

scoped instance : Message ProduceEvent where
  numbers := [1, 2, 3, 4, 5, 6, 7]
  fields event := [blob event.channelsHash, blob event.hash, flag event.persistent,
    int32 event.timesRepeated, flag event.isDeterministic, blobs event.outputValue,
    flag event.failed]
  fields_injective := by
    rintro ⟨⟩ ⟨⟩ same
    simpa using same

scoped instance : Message ConsumeEvent where
  numbers := [1, 2, 3]
  fields event := [blobs event.channelsHashes, blob event.hash, flag event.persistent]
  fields_injective := by
    rintro ⟨⟩ ⟨⟩ same
    simpa using same

/-- `PeekProto`. -/
scoped instance : Message Int32 where
  numbers := [1]
  fields channelIndex := [int32 channelIndex]
  fields_injective a b same := by simpa using same

scoped instance : Message CommEventProto where
  numbers := [1, 2, 3]
  fields event := [optional event.consume, messages event.produces, messages event.peeks]
  fields_injective := by
    rintro ⟨⟩ ⟨⟩ same
    simpa using same

scoped instance : Message EventProto where
  numbers := [1, 2, 3]
  fields
    | ⟨none⟩ => [[], [], []]
    | ⟨some (.produce event)⟩ => [messages [event], [], []]
    | ⟨some (.consume event)⟩ => [[], messages [event], []]
    | ⟨some (.comm event)⟩ => [[], [], messages [event]]
  complete := by rintro ⟨_ | _ | _ | _⟩ <;> rfl
  fields_injective := by
    rintro ⟨_ | _ | _ | _⟩ ⟨_ | _ | _ | _⟩ same <;> simp_all [messages, blobs]
    all_goals exact encode_injective same

scoped instance : Message DeployDataProto where
  numbers := [1, 2, 3, 4, 5, 7, 8, 10, 11, 12, 13]
  fields deploy := [blob deploy.deployer, text deploy.term, int64 deploy.timestamp, blob deploy.sig,
    text deploy.sigAlgorithm, int64 deploy.phloPrice, int64 deploy.phloLimit,
    int64 deploy.validAfterBlockNumber, text deploy.shardId, text deploy.language,
    int64 deploy.expirationTimestamp]
  fields_injective := by
    rintro ⟨⟩ ⟨⟩ same
    simpa using same

/-- `PCost`. -/
scoped instance : Message UInt64 where
  numbers := [1]
  fields cost := [scalar cost.toNat]
  fields_injective a b same := by simpa [UInt64.toNat_inj] using same

scoped instance : Message ProcessedDeployProto where
  numbers := [1, 2, 3, 5, 6]
  fields processed := [optional processed.deploy, optional processed.cost,
    messages processed.deployLog, flag processed.errored, text processed.systemDeployError]
  fields_injective := by
    rintro ⟨⟩ ⟨⟩ same
    simpa using same

/-- `SlashSystemDeployDataProto`. -/
scoped instance : Message (ByteVector × ByteVector) where
  numbers := [1, 2]
  fields slash := [blob slash.1, blob slash.2]
  fields_injective := by
    rintro ⟨⟩ ⟨⟩ same
    simpa using same

scoped instance : Message SystemDeployDataProto where
  numbers := [1, 2]
  fields
    | ⟨none⟩ => [[], []]
    | ⟨some (.slashSystemDeploy invalidBlockHash issuerPublicKey)⟩ =>
      [messages [(invalidBlockHash, issuerPublicKey)], []]
    | ⟨some .closeBlockSystemDeploy⟩ => [[], [.bytes []]]
  complete := by rintro ⟨_ | _ | _⟩ <;> rfl
  fields_injective := by
    rintro ⟨_ | _ | _⟩ ⟨_ | _ | _⟩ same <;> simp_all [messages, blobs]
    exact Prod.mk.inj (encode_injective same)

scoped instance : Message ProcessedSystemDeployProto where
  numbers := [1, 2, 3]
  fields processed := [optional processed.systemDeploy, messages processed.deployLog,
    text processed.errorMsg]
  fields_injective := by
    rintro ⟨⟩ ⟨⟩ same
    simpa using same

/-- `RejectedDeployProto`. -/
scoped instance : Message ByteVector where
  numbers := [1]
  fields sig := [blob sig]
  fields_injective a b same := by simpa using same

scoped instance : Message BodyProto where
  numbers := [1, 2, 3, 4, 5]
  fields body := [optional body.state, messages body.deploys, messages body.systemDeploys,
    blob body.extraBytes, messages body.rejectedDeploys]
  fields_injective := by
    rintro ⟨⟩ ⟨⟩ same
    simpa using same

/-- The encoder of `prost`, which writes the fields in the order of their numbers. -/
scoped instance [Message M] : ProstMessage M := ⟨encode, encode_injective⟩

end F1r3fly.Casper.ProtoUtil
