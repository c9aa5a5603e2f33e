import F1r3fly.BlockStorage.BlockDag

/-! The store of whole blocks. -/
namespace F1r3fly.BlockStorage

open HashedSet Models
open RSpace (ByteVector)
open Results

abbrev KeyValueBlockStore := HashedMap BlockHash BlockMessage

namespace KeyValueBlockStore

def getUnsafe {ε : Type} (store : KeyValueBlockStore) (blockHash : BlockHash) :
    Fallible ε BlockMessage :=
  ExceptT.lift (store.get? blockHash)

variable {store : KeyValueBlockStore}

theorem returns_getUnsafe {ε : Type} :
    Returns (store.getUnsafe blockHash : Fallible ε BlockMessage) block ↔
      store.get? blockHash = some block := by
  rw [Returns, getUnsafe, ExceptT.run_lift]
  cases store.get? blockHash <;> simp

def minDeploySigBytes : Nat := 32

def errorBlock (hash : BlockHash) (cause : String) : String :=
  "Block decoding error, hash " ++ PrettyPrinter.buildStringBytes hash ++ ". Cause: " ++ cause

/-- Every signature is read before the answer, and a short one is an error. -/
def hasAnyDeploySig (store : KeyValueBlockStore) (blockHash : BlockHash)
    (deploySigs : HashedSet ByteVector) : Except KvStoreError Bool :=
  if deploySigs.isEmpty then .ok false
  else
    match store.get? blockHash with
    | none => .ok false
    | some block =>
      block.body.deploys.foldlM (fun hasAny processed =>
        if processed.deploy.sig.length < minDeploySigBytes then
          .error (.serializationError (errorBlock blockHash
            ("Invalid deploy signature length: " ++ toString processed.deploy.sig.length)))
        else .ok (hasAny || deploySigs.contains processed.deploy.sig)) false

/-- A stored block of which all signatures can be read has none of those that are looked for. -/
theorem hasAnyDeploySig_eq_false_iff (asked : ¬deploySigs.isEmpty) :
    store.hasAnyDeploySig blockHash deploySigs = .ok false ↔
      ∀ block, store.get? blockHash = some block → ∀ processed ∈ block.body.deploys,
        minDeploySigBytes ≤ processed.deploy.sig.length ∧ processed.deploy.sig ∉ deploySigs := by
  rw [hasAnyDeploySig, if_neg asked]
  cases store.get? blockHash with
  | none => simp
  | some block =>
    have folded_iff (processed : List ProcessedDeploy) (start : Bool) :
        processed.foldlM (fun hasAny processed =>
          if processed.deploy.sig.length < minDeploySigBytes then
            .error (.serializationError (errorBlock blockHash
              ("Invalid deploy signature length: " ++ toString processed.deploy.sig.length)))
          else .ok (hasAny || deploySigs.contains processed.deploy.sig)) start =
            (.ok false : Except KvStoreError Bool) ↔
          start = false ∧ ∀ pd ∈ processed,
            minDeploySigBytes ≤ pd.deploy.sig.length ∧ pd.deploy.sig ∉ deploySigs := by
      induction processed generalizing start with
      | nil => simp [pure, Except.pure]
      | cons first rest ih =>
        rw [foldlM_cons]
        split_ifs with short
        · simp [bind, Except.bind, short]
        · simp only [bind, Except.bind]
          rw [ih]
          simp [not_lt.mp short, ← contains_iff, and_assoc]
    simpa using folded_iff block.body.deploys false

def hasAnyDeploySigUnsafe {ε : Type} (store : KeyValueBlockStore) (blockHash : BlockHash)
    (deploySigs : HashedSet ByteVector) : Fallible ε Bool :=
  ExceptT.lift (store.hasAnyDeploySig blockHash deploySigs).toOption

theorem returns_hasAnyDeploySigUnsafe {ε : Type} :
    Returns (store.hasAnyDeploySigUnsafe blockHash deploySigs : Fallible ε Bool) answer ↔
      store.hasAnyDeploySig blockHash deploySigs = .ok answer := by
  rw [Returns, hasAnyDeploySigUnsafe, ExceptT.run_lift]
  cases store.hasAnyDeploySig blockHash deploySigs <;> simp [Except.toOption]

end KeyValueBlockStore

end F1r3fly.BlockStorage
