import F1r3fly.BlockStorage.BlockDag
import F1r3fly.RSpace.Merger.StateChange

/-! The errors of the consensus layer. -/
namespace F1r3fly.Casper

open BlockStorage
open RSpace.Merger (MergerError)

inductive CasperError where
  | historyError (error : MergerError)
  | kvStoreError (error : KvStoreError)
  | runtimeError (message : String)
deriving DecidableEq

end F1r3fly.Casper
