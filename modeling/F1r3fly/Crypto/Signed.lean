import F1r3fly.Models.CasperMessage

/-! Signed data: the algorithms by their names, the hash that is signed and the check of a
signature. The curves, Keccak-256 and the encoder of messages are outside the repository. -/
namespace F1r3fly.Crypto

open Models (Signed)
open RSpace

inductive SignaturesAlg where
  | ed25519
  | secp256k1
  | secp256k1Eth
deriving DecidableEq

namespace SignaturesAlg

def name : SignaturesAlg → String
  | ed25519 => "ed25519"
  | secp256k1 => "secp256k1"
  | secp256k1Eth => "secp256k1:eth"

theorem name_injective : Function.Injective name := by
  intro a b same
  revert same
  cases a <;> cases b <;> decide

end SignaturesAlg

/-- The algorithm that signs deploys over the Ethereum prefix is registered under a name that is
not its own. -/
def SignaturesAlgFactory.apply (name : String) : Option SignaturesAlg :=
  if name = "secp256k1" then some .secp256k1
  else if name = "secp256k1-eth" then some .secp256k1Eth
  else none

theorem SignaturesAlgFactory.apply_name (algorithm : SignaturesAlg) :
    apply algorithm.name = if algorithm = .secp256k1 then some .secp256k1 else none := by
  cases algorithm <;> decide

class SignatureScheme where
  verify : SignaturesAlg → (data signature pubKey : ByteVector) → Bool
  keccak256 : ByteVector → ByteVector

class Message (M : Type) where
  encodeToVec : M → ByteVector

class ToMessage (A : Type) (M : outParam Type) where
  toMessage : A → M

section Signed

variable [Blake2b] [SignatureScheme] {A M : Type} [Message M] [ToMessage A M]

def ethPrefix (msgLength : Nat) : ByteVector :=
  ("\x19Ethereum Signed Message:\n" ++ toString msgLength).toUTF8.toList

def signatureHash (sigAlgName : String) (serializedData : ByteVector) : ByteVector :=
  if sigAlgName = SignaturesAlg.name .secp256k1Eth then
    SignatureScheme.keccak256 (ethPrefix serializedData.length ++ serializedData)
  else Blake2b.hash serializedData

def serialize (data : A) : ByteVector := Message.encodeToVec (ToMessage.toMessage data)

def fromSignedData (data : A) (pk sig : ByteVector) (sigAlgorithm : SignaturesAlg) :
    Option (Signed A) :=
  let hash := signatureHash sigAlgorithm.name (serialize data)
  if SignatureScheme.verify sigAlgorithm hash sig pk then some ⟨data, pk, sig, sigAlgorithm.name⟩
  else none

/-- The data carries a signature that its own algorithm verifies. -/
def ValidlySigned (signed : Signed A) : Prop :=
  ∃ algorithm : SignaturesAlg, algorithm.name = signed.sigAlgorithm ∧
    SignatureScheme.verify algorithm (signatureHash algorithm.name (serialize signed.data))
      signed.sig signed.pk = true

theorem fromSignedData_of_verify {data : A}
    (verified : SignatureScheme.verify algorithm
      (signatureHash algorithm.name (serialize data)) sig pk) :
    fromSignedData data pk sig algorithm = some ⟨data, pk, sig, algorithm.name⟩ := by
  simp only [fromSignedData, verified, if_true]

end Signed

end F1r3fly.Crypto
