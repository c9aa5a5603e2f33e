import F1r3fly.Casper.Util.ProstMessages
import F1r3fly.Casper.Validate

/-! What the hash of a block commits to. -/
namespace F1r3fly.Casper

open Models
open ProtoUtil
open RSpace (Blake2b ByteVector CollisionFree blake2b)

/-- Two blocks agree on everything but their hash and their signature. -/
structure Agree (a b : BlockMessage) : Prop where
  header : a.header = b.header
  body : a.body = b.body
  justifications : a.justifications = b.justifications
  sender : a.sender = b.sender
  sigAlgorithm : a.sigAlgorithm = b.sigAlgorithm
  seqNum : a.seqNum = b.seqNum
  shardId : a.shardId = b.shardId
  extraBytes : a.extraBytes = b.extraBytes

def expirations (body : Body) : List (Option Int64) :=
  body.deploys.map fun processed => processed.deploy.data.expirationTimestamp

def systemDeployErrors (body : Body) : List (Option String) :=
  body.deploys.map fun processed => processed.systemDeployError

section Encoding

theorem event_toProto_injective : Function.Injective Event.toProto := by
  intro a b same
  cases a <;> cases b <;> simp_all [Event.toProto, CommEvent.toProto]
  exact CommEvent.mk.injEq .. ▸ same

theorem systemDeployData_toProto_injective : Function.Injective SystemDeployData.toProto := by
  intro a b same
  cases a <;> cases b <;> simp_all [SystemDeployData.toProto]

theorem processedSystemDeploy_toProto_injective :
    Function.Injective ProcessedSystemDeploy.toProto := by
  intro a b same
  have events_eq {events others : List Event}
      (messages : events.map Event.toProto = others.map Event.toProto) : events = others :=
    List.map_injective_iff.mpr event_toProto_injective messages
  cases a <;> cases b <;> simp_all [ProcessedSystemDeploy.toProto]
  · exact ⟨events_eq same.2, systemDeployData_toProto_injective same.1⟩
  · exact events_eq same.1

theorem processedDeploy_ext {a b : ProcessedDeploy} (message : a.toProto = b.toProto)
    (expiration : a.deploy.data.expirationTimestamp = b.deploy.data.expirationTimestamp)
    (error : a.systemDeployError = b.systemDeployError) : a = b := by
  have logs := List.map_injective_iff.mpr event_toProto_injective
    (congrArg ProcessedDeployProto.deployLog message)
  obtain ⟨⟨⟨⟩, _, _, _⟩, _, _, _, _⟩ := a
  simp_all [ProcessedDeploy.toProto, DeployData.toProto]

theorem deploys_ext {a b : List ProcessedDeploy}
    (messages : a.map ProcessedDeploy.toProto = b.map ProcessedDeploy.toProto)
    (expirations : a.map (·.deploy.data.expirationTimestamp) =
      b.map (·.deploy.data.expirationTimestamp))
    (errors : a.map (·.systemDeployError) = b.map (·.systemDeployError)) : a = b := by
  induction a generalizing b with
  | nil => exact (List.map_eq_nil_iff.mp messages.symm).symm
  | cons deploy a ih =>
    cases b with
    | nil => cases messages
    | cons other b =>
      obtain ⟨message, messages⟩ := List.cons.inj messages
      obtain ⟨expiration, expirations⟩ := List.cons.inj expirations
      obtain ⟨error, errors⟩ := List.cons.inj errors
      rw [processedDeploy_ext message expiration error, ih messages expirations errors]

/-- A body is its message and what the message does not tell apart. -/
theorem body_ext {a b : Body} (message : a.toProto = b.toProto)
    (sameExpirations : expirations a = expirations b)
    (sameErrors : systemDeployErrors a = systemDeployErrors b) : a = b := by
  obtain ⟨state, deploys, rejected, system, extra⟩ := a
  simp only [Body.toProto, BodyProto.mk.injEq, Option.some.injEq] at message
  obtain ⟨rfl, messages, systemMessages, rfl, rfl⟩ := message
  rw [deploys_ext messages sameExpirations sameErrors,
    List.map_injective_iff.mpr processedSystemDeploy_toProto_injective systemMessages]

end Encoding

section Commitment

variable [ProstMessage Header] [ProstMessage BodyProto]

structure SameShape (a b : BlockMessage) : Prop where
  justifications : a.justifications = b.justifications
  header : (encodeToVec a.header).length = (encodeToVec b.header).length
  body : (encodeToVec a.body.toProto).length = (encodeToVec b.body.toProto).length
  sender : a.sender.length = b.sender.length
  sigAlgorithm : (asBytes a.sigAlgorithm).length = (asBytes b.sigAlgorithm).length
  shardId : (asBytes a.shardId).length = (asBytes b.shardId).length
  expirations : expirations a.body = expirations b.body
  systemDeployErrors : systemDeployErrors a.body = systemDeployErrors b.body

variable {a b : BlockMessage}

theorem Agree.sameShape (agree : Agree a b) : SameShape a b := by
  obtain ⟨header, body, justifications, sender, algorithm, seqNum, shardId, extra⟩ := agree
  exact ⟨justifications, by rw [header], by rw [body], by rw [sender], by rw [algorithm],
    by rw [shardId], by rw [body], by rw [body]⟩

theorem agree_of_hashedBytes (same : hashedBytes a = hashedBytes b)
    (shape : SameShape a b) : Agree a b := by
  simp only [hashedBytes, append_assoc] at same
  obtain ⟨header, same⟩ := append_inj same shape.header
  obtain ⟨body, same⟩ := append_inj same shape.body
  obtain ⟨sender, same⟩ := append_inj same shape.sender
  obtain ⟨algorithm, same⟩ := append_inj same shape.sigAlgorithm
  obtain ⟨seqNum, same⟩ := append_inj same ((length_leBytes _).trans (length_leBytes _).symm)
  obtain ⟨shardId, extra⟩ := append_inj same shape.shardId
  exact {
    header := encodeToVec_injective header
    body := body_ext (encodeToVec_injective body) shape.expirations shape.systemDeployErrors
    justifications := shape.justifications
    sender := sender
    sigAlgorithm := asBytes_injective algorithm
    seqNum := leBytes_injective seqNum
    shardId := asBytes_injective shardId
    extraBytes := extra }

theorem agree_iff_sameShape [Blake2b] (hashes : hashBlock a = hashBlock b)
    (free : CollisionFree [hashedBytes a, hashedBytes b]) : Agree a b ↔ SameShape a b := by
  have same : hashedBytes a = hashedBytes b := free _ (by simp) _ (by simp) hashes
  exact ⟨Agree.sameShape, agree_of_hashedBytes same⟩

theorem hashBlock_of_blockHash [Blake2b]
    (valid : Validate.blockHash b = .ok .valid) : hashBlock b = b.blockHash := by
  rw [Validate.blockHash] at valid
  split at valid
  · next same => exact same.symm
  · cases valid

end Commitment

/-- Two blocks of one hash agree exactly if they have the same justifications, the parts under
the hash have the same lengths, and what the messages do not tell apart is the same. So a relay
alters a block that validates exactly if it changes one of these. -/
theorem hashBlock_commits_iff [Blake2b] [ProstMessage Header] [ProstMessage BodyProto]
    [SignatureVerifiers] (a b : BlockMessage)
    (free : CollisionFree [hashedBytes a, hashedBytes b]) :
    (hashBlock a = hashBlock b → (Agree a b ↔ SameShape a b)) ∧
    (a.blockHash = b.blockHash →
      Validate.blockHash a = .ok .valid → Validate.blockSignature a = true →
      Validate.blockHash b = .ok .valid → Validate.blockSignature b = true →
      (Agree a b ↔ SameShape a b)) := by
  refine ⟨fun hashes => agree_iff_sameShape hashes free, ?_⟩
  intro named aHash _ bHash _
  refine agree_iff_sameShape ?_ free
  rw [hashBlock_of_blockHash aHash, hashBlock_of_blockHash bHash, named]

section Samples

@[reducible] def trustingVerifiers : SignatureVerifiers where
  verifier algorithm := if algorithm = "secp256k1" then some fun _ _ _ => true else none

attribute [local instance] blake2b trustingVerifiers

def sealed (block : BlockMessage) : BlockMessage :=
  { block with blockHash := hashBlock block }

def plainBlock (justifications : List Justification) (shardId : String) (extraBytes : ByteVector) :
    BlockMessage where
  blockHash := []
  header := ⟨[], 0, 1, []⟩
  body := ⟨⟨[], [], [], 1⟩, [], [], [], []⟩
  justifications := justifications
  sender := [1]
  seqNum := 1
  sig := [2]
  sigAlgorithm := "secp256k1"
  shardId := shardId
  extraBytes := extraBytes

/-- A relay can replace the justifications, and it can move a byte from one part to the next. -/
theorem hashBlock_misses_alterations :
    (Validate.blockHash (sealed (plainBlock [⟨[1], [7]⟩] "root" [])) = .ok .valid ∧
      Validate.blockSignature (sealed (plainBlock [⟨[1], [7]⟩] "root" [])) = true ∧
      Validate.blockHash { sealed (plainBlock [⟨[1], [7]⟩] "root" []) with
        justifications := [⟨[1], [8]⟩] } = .ok .valid ∧
      Validate.blockSignature { sealed (plainBlock [⟨[1], [7]⟩] "root" []) with
        justifications := [⟨[1], [8]⟩] } = true) ∧
    hashBlock (plainBlock [] "root" []) = hashBlock (plainBlock [] "roo" [116]) := by
  refine ⟨⟨if_pos rfl, rfl, if_pos rfl, rfl⟩, ?_⟩
  have moved : asBytes "root" ++ [] = asBytes "roo" ++ [116] := by decide
  simp only [hashBlock, hashedBytes, plainBlock, append_assoc, moved]

theorem hashBlock_commits_of_relayed :
    hashBlock (plainBlock [⟨[1], [7]⟩] "root" []) = hashBlock (plainBlock [⟨[1], [8]⟩] "root" []) ∧
    (Agree (plainBlock [⟨[1], [7]⟩] "root" []) (plainBlock [⟨[1], [8]⟩] "root" []) ↔
      SameShape (plainBlock [⟨[1], [7]⟩] "root" []) (plainBlock [⟨[1], [8]⟩] "root" [])) := by
  have free : CollisionFree [hashedBytes (plainBlock [⟨[1], [7]⟩] "root" []),
      hashedBytes (plainBlock [⟨[1], [8]⟩] "root" [])] := by
    intro x hx y hy _
    have same : hashedBytes (plainBlock [⟨[1], [8]⟩] "root" []) =
      hashedBytes (plainBlock [⟨[1], [7]⟩] "root" []) := rfl
    simp only [same, mem_cons, not_mem_nil, or_false, or_self] at hx hy
    rw [hx, hy]
  exact ⟨rfl, (hashBlock_commits_iff _ _ free).1 rfl⟩

end Samples

end F1r3fly.Casper
