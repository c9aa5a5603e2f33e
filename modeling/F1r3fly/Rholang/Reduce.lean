import F1r3fly.Data.ForkJoin
import F1r3fly.Rholang.Accounting.CostManager
import F1r3fly.Rholang.Storage.ChargingRSpace

/-! The reducer as far as the balance can tell. A term charges for its evaluation and then fails,
evaluates other terms in parallel, or issues a produce or a consume. Which of these meet in a
COMM is chosen beforehand, as it is when a block is replayed. -/
namespace F1r3fly.Rholang

open Accounting
open ForkJoin (Next Tree)

/-- What the evaluation of a term does, one step after the other. -/
inductive Term (O : Type) where
  | charges (site : ChargeSite) (rest : Term O)
  | fails (error : InterpreterError)
  | evals (terms : List (Term O))
  | issues (op : O)

/-- The choice of the COMM events. Terms are known by the random state that they are evaluated
with. A linear term takes part in one COMM only, at one place; a persistent send may be matched
at several places of a join. A peek removes the data and produces it again, as the terms in
`peeks`. -/
structure Choice (O C : Type) where
  op : O → Op
  comms : O → List C
  consume : C → O
  produces : C → List O
  peeks : C → List O
  body : C → List (Term O)
  fits : ∀ o, (op o).Fits
  comm_fits : ∀ k, ((produces k).map fun o => (op o).size).sum < 2 ^ 48
  listed : ∀ o k, k ∈ comms o ↔ o = consume k ∨ o ∈ produces k
  once : ∀ o k other, (op o).persistent = false → k ∈ comms o → other ∈ comms o → k = other
  distinct : ∀ k, ((consume k :: produces k).filter fun o => !(op o).persistent).Nodup
  consumes : ∀ k, (op (consume k)).isConsume = true
  aligned : ∀ k, (produces k).map (fun o => (op o).producedOn) = (op (consume k)).channels.map some
  linear_peek : ∀ k, (op (consume k)).persistent = true → peeks k = []

inductive Follow (O : Type) where
  | stops
  | evals (body : Term O)
  | spawns (terms : List (Term O))

inductive Task (O : Type) where
  | evaluating (term : Term O)
  | inSpace (op : O)
  | settling (charges : List SpaceCharge) (follow : Follow O)

/-- What the branches share: the balance, and the tuple space with the COMMs so far. -/
structure Shared (O C : Type) where
  balance : Int64
  space : List O
  fired : List C

/-- More terms than this cannot be told apart. -/
def termSplitLimit : Nat := 32767

def tooManyTerms (length : Nat) : InterpreterError :=
  .reduceError ("The number of terms in the Par is " ++ toString length ++
    ", which exceeds the limit of " ++ toString termSplitLimit)

/-- Up to 256 terms are told apart by a signed byte, and an index above 127 is not one. -/
def splitPanics (length : Nat) : Bool := 128 < length && length ≤ 256

/-- What a branch ends with that cannot tell its terms apart. A panic is an error for the branch
that has spawned it. -/
def splitError (length : Nat) : Option InterpreterError :=
  if length > termSplitLimit then some (tooManyTerms length)
  else if splitPanics length then some (.reduceError "task panicked")
  else none

section Step

variable {O C : Type} [DecidableEq O] [DecidableEq C] (choice : Choice O C)

def Choice.participants (k : C) : List O := choice.consume k :: choice.produces k

/-- The other participants of the COMM are stored. -/
def Choice.isReady (shared : Shared O C) (trigger : O) (k : C) : Bool :=
  !shared.fired.contains k &&
    (choice.participants k).all fun o => o == trigger || shared.space.contains o

def Choice.triggers (shared : Shared O C) (trigger : O) : Option C :=
  (choice.comms trigger).find? (choice.isReady shared trigger)

/-- The terms that a COMM takes out of the space. -/
def Choice.removes (trigger : O) (k : C) : List O :=
  (choice.participants k).filter fun o => o != trigger && !(choice.op o).persistent

/-- A persistent term is issued again after it has triggered a COMM. -/
def Choice.follow (trigger : O) (k : C) : Follow O :=
  if (choice.op trigger).persistent then
    .spawns ([.evals (choice.body k), .issues trigger] ++ (choice.peeks k).map .issues)
  else if (choice.peeks k).isEmpty then
    .evals (.evals (choice.body k))
  else
    .spawns (.evals (choice.body k) :: (choice.peeks k).map .issues)

def Choice.withOp (o : O) : O × Op := (o, choice.op o)

def Choice.result (k : C) : (O × Op) × List (O × Op) :=
  (choice.withOp (choice.consume k), (choice.produces k).map choice.withOp)

/-- Charges, and goes on or ends with the error. -/
def charging (shared : Shared O C) (amount : Int64) (failure : InterpreterError) (next : Task O) :
    Shared O C × Next (Task O) BranchResult :=
  match charge shared.balance amount with
  | (.ok (), value) => ({ shared with balance := value }, .goesOn next)
  | (.error _, value) => ({ shared with balance := value }, .ends (some failure))

def step (shared : Shared O C) : Task O → Shared O C × Next (Task O) BranchResult
  | .evaluating (.charges site rest) =>
    charging shared site.amount .outOfPhlogistonsError (.evaluating rest)
  | .evaluating (.fails error) => (shared, .ends (some error))
  | .evaluating (.evals terms) =>
    match splitError terms.length with
    | some error => (shared, .ends (some error))
    | none => (shared, .forks (terms.map .evaluating))
  | .evaluating (.issues op) => charging shared (choice.op op).storageCost .fromSpace (.inSpace op)
  | .inSpace op =>
    match choice.triggers shared op with
    | none =>
      ({ shared with space := op :: shared.space },
        .goesOn (.settling (handleResult (choice.withOp op) none) .stops))
    | some k =>
      ({ shared with
        space := shared.space.diff (choice.removes op k)
        fired := k :: shared.fired },
        .goesOn (.settling (handleResult (choice.withOp op) (some (choice.result k)))
          (choice.follow op k)))
  | .settling (spaceCharge :: rest) follow =>
    charging shared spaceCharge.amount .fromSpace (.settling rest follow)
  | .settling [] .stops => (shared, .ends none)
  | .settling [] (.evals body) => (shared, .goesOn (.evaluating body))
  | .settling [] (.spawns terms) => (shared, .forks (terms.map .evaluating))

def start (terms : List (Term O)) : Tree (Task O) BranchResult :=
  .running (.evaluating (.evals terms))

end Step

end F1r3fly.Rholang
