import F1r3fly.Rholang.Accounting.Costs

/-! What the tuple space charges for a produce or a consume, and what it gives back when a COMM
removes terms. -/
namespace F1r3fly.Rholang

open Accounting

/-- A produce or a consume, with the encoded lengths of what it stores. -/
inductive Op where
  | produce (channel : Nat) (data : List Nat) (persistent : Bool)
  | consume (channels patterns : List Nat) (body : Nat) (persistent : Bool)

namespace Op

def persistent : Op → Bool
  | produce _ _ persistent => persistent
  | consume _ _ _ persistent => persistent

def channels : Op → List Nat
  | produce channel _ _ => [channel]
  | consume channels _ _ _ => channels

def data : Op → List Nat
  | produce _ data _ => data
  | consume _ _ _ _ => []

def size : Op → Nat
  | produce channel data _ => channel + data.sum
  | consume channels patterns body _ => channels.sum + patterns.sum + body

def storageCost : Op → Int64
  | produce channel data _ => storageCostProduce channel data
  | consume channels patterns body _ => storageCostConsume channels patterns body

def channelsCount (op : Op) : Int64 := i64 op.channels.length

/-- What is in memory is smaller than the address space. -/
def Fits (op : Op) : Prop := op.size < 2 ^ 48 ∧ op.channels.length < 2 ^ 48

instance (op : Op) : Decidable op.Fits := inferInstanceAs (Decidable (_ ∧ _))

def isConsume : Op → Bool
  | produce _ _ _ => false
  | consume _ _ _ _ => true

def producedOn : Op → Option Nat
  | produce channel _ _ => some channel
  | consume _ _ _ _ => none

theorem storageCost_eq (op : Op) : op.storageCost = i64 op.size := by
  cases op with
  | produce channel data persistent => exact storageCostProduce_eq channel data
  | consume channels patterns body persistent =>
    rw [storageCost, storageCostConsume, size, i64_add, i64_add]

theorem storageCost_of_producedOn {op : Op} (produced : op.producedOn = some channel) :
    storageCostProduce channel op.data = op.storageCost := by
  cases op with
  | produce own data persistent =>
    cases produced
    rfl
  | consume channels patterns body persistent => cases produced

end Op

inductive SpaceCharge where
  | refund (amount : Int64)
  | event (channels : Int64)
  | comm (channels : Int64)

def SpaceCharge.amount : SpaceCharge → Int64
  | refund amount => -amount
  | event channels => eventStorageCost channels
  | comm channels => commEventStorageCost channels

section Results

variable {O : Type} [DecidableEq O]

/-- Persistent terms stay, apart from the one that has triggered the COMM. -/
def isRemoved (trigger : O) (participant : O × Op) : Bool :=
  !participant.2.persistent || participant.1 == trigger

def refundForConsume (trigger : O) (cont : O × Op) : Int64 :=
  if isRemoved trigger cont then cont.2.storageCost else 0

def refundForRemovingProduces (trigger : O) (dataList : List (O × Op)) (cont : Op) : Int64 :=
  let removedData := (dataList.zip cont.channels).filter fun entry => isRemoved trigger entry.1
  removedData.foldl (fun acc entry => acc + storageCostProduce entry.2 entry.1.2.data) 0

/-- The charges after the operation, in their order. -/
def handleResult (trigger : O × Op) : Option ((O × Op) × List (O × Op)) → List SpaceCharge
  | some (cont, dataList) =>
    [.refund (refundForConsume trigger.1 cont),
      .refund (refundForRemovingProduces trigger.1 dataList cont.2)] ++
      (if trigger.2.persistent then [] else [.event trigger.2.channelsCount]) ++
      [.comm cont.2.channelsCount]
  | none => [.event trigger.2.channelsCount]

variable {dataList : List (O × Op)}

theorem foldl_produceCosts (trigger : O)
    (aligned : dataList.map (fun data => data.2.producedOn) = channels.map some) (acc : Nat) :
    ((dataList.zip channels).filter fun entry => isRemoved trigger entry.1).foldl
        (fun acc entry => acc + storageCostProduce entry.2 entry.1.2.data) (i64 acc) =
      i64 (acc + ((dataList.filter (isRemoved trigger)).map fun data => data.2.size).sum) := by
  induction dataList generalizing channels acc with
  | nil => rw [List.zip_nil_left]; rfl
  | cons data dataList ih =>
    cases channels with
    | nil => cases aligned
    | cons channel channels =>
      rw [List.map_cons, List.map_cons, List.cons.injEq] at aligned
      rw [List.zip_cons_cons, List.filter_cons, List.filter_cons]
      by_cases removed : isRemoved trigger data
      · rw [if_pos removed, if_pos removed, List.foldl_cons, List.map_cons, List.sum_cons]
        rw [Op.storageCost_of_producedOn aligned.1, Op.storageCost_eq, ← i64_add, ih aligned.2,
          add_assoc]
      · rw [if_neg removed, if_neg removed, ih aligned.2]

end Results

end F1r3fly.Rholang
