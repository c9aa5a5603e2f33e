import F1r3fly.BlockStorage.KeyValueBlockStore

/-! What a validator knows when it proposes or validates a block. -/
namespace F1r3fly.Casper

open BlockStorage

structure CasperSnapshot where
  dag : KeyValueDagRepresentation
  /-- Signatures of deploys that a merge in the ancestry window has rejected. -/
  rejectedInScope : HashedSet DeployId

end F1r3fly.Casper
