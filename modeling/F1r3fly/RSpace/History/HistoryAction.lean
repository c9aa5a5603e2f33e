import F1r3fly.RSpace.Hashing.Blake2b256Hash

namespace F1r3fly.RSpace.History

abbrev KeyPath := List UInt8

inductive HistoryAction where
  | insert (key : KeyPath) (hash : Blake2b256Hash)
  | delete (key : KeyPath)
deriving DecidableEq

namespace HistoryAction

def key : HistoryAction → KeyPath
  | .insert key _ => key
  | .delete key => key

def isInsert : HistoryAction → Bool
  | .insert _ _ => true
  | .delete _ => false

def result : HistoryAction → Option Blake2b256Hash
  | .insert _ hash => some hash
  | .delete _ => none

end HistoryAction

/-- The finite map a history stands for. -/
abbrev KeyMap := KeyPath → Option ByteVector

def applyAction (map : KeyMap) (action : HistoryAction) : KeyMap :=
  Function.update map action.key action.result

def applyActions (actions : List HistoryAction) (map : KeyMap) : KeyMap :=
  actions.foldl applyAction map

def applyBatches (batches : List (List HistoryAction)) (map : KeyMap) : KeyMap :=
  batches.foldl (fun map actions => applyActions actions map) map

end F1r3fly.RSpace.History
