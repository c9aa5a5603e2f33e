import Mathlib.Data.Nat.Log
import F1r3fly.Data.MachineInt

/-! What the interpreter charges for: a cost is a number of 64 bits that is computed from the
sizes of terms or, for some methods, from a number that the program supplies. -/
namespace F1r3fly.Rholang.Accounting

/-- A length in bytes or elements. No value in memory is larger than the address space. -/
abbrev Size := Fin (2 ^ 48)

def i64 (length : Nat) : Int64 := Int64.ofNat length

theorem i64_add (a b : Nat) : i64 (a + b) = i64 a + i64 b := Int64.ofNat_add a b

theorem i64_mul (a b : Nat) : i64 (a * b) = i64 a * i64 b := Int64.ofNat_mul a b

variable {length : Nat}

theorem toInt_i64 (fits : length < 2 ^ 63) : (i64 length).toInt = length :=
  Int64.toInt_ofNat_of_lt fits

theorem i64_nonneg (fits : length < 2 ^ 63) : 0 ≤ (i64 length).toInt := by
  rw [toInt_i64 fits]
  exact Int.natCast_nonneg length

theorem toInt_neg_i64 (fits : length < 2 ^ 63) : (-i64 length).toInt = -length := by
  rw [Int64.toInt_neg, toInt_i64 fits]
  exact Int.bmod_eq_of_le (by omega) (by omega)

section Operators

def sumCost : Int64 := 3

def subtractionCost : Int64 := 3

def equalityCheckCost (sizeX sizeY : Nat) : Int64 := i64 (min sizeX sizeY)

def booleanAndCost : Int64 := 2

def booleanOrCost : Int64 := 2

def comparisonCost : Int64 := 3

def multiplicationCost : Int64 := 9

def divisionCost : Int64 := 9

def moduloCost : Int64 := 9

/-- Adding and subtracting large integers, with the cost of the operator as the least one. -/
def linearCost (least : Int64) (aLen bLen : Nat) : Int64 := max (i64 (max aLen bLen) + 1) least

def bigintSumCost : Nat → Nat → Int64 := linearCost sumCost

def bigintSubtractionCost : Nat → Nat → Int64 := linearCost subtractionCost

/-- Multiplying and dividing them. -/
def quadraticCost (least : Int64) (aLen bLen : Nat) : Int64 := max (i64 aLen * i64 bLen) least

def bigintMultiplicationCost : Nat → Nat → Int64 := quadraticCost multiplicationCost

def bigintDivisionCost : Nat → Nat → Int64 := quadraticCost divisionCost

def bigintModuloCost : Nat → Nat → Int64 := quadraticCost moduloCost

def negationCost (len : Nat) : Int64 := max (i64 len) 1

def bigintNegationCost : Nat → Int64 := negationCost

def bigintComparisonCost (aLen bLen : Nat) : Int64 := max (i64 (max aLen bLen)) comparisonCost

/-- The lengths of the numerators and denominators of two rational numbers. -/
structure Lengths where
  numA : Size
  denA : Size
  numB : Size
  denB : Size

def Lengths.maxLen (lengths : Lengths) : Int64 :=
  i64 (max (max lengths.numA.val lengths.denA.val) (max lengths.numB.val lengths.denB.val))

def crossCost (least : Int64) (lengths : Lengths) : Int64 :=
  let crossMul := lengths.maxLen * lengths.maxLen
  max (4 * crossMul + lengths.maxLen) least

def bigratSumCost : Lengths → Int64 := crossCost sumCost

def bigratSubtractionCost : Lengths → Int64 := crossCost subtractionCost

def bigratMultiplicationCost (lengths : Lengths) : Int64 :=
  let numWork := i64 lengths.numA * i64 lengths.numB
  let denWork := i64 lengths.denA * i64 lengths.denB
  max (numWork + denWork + lengths.maxLen) multiplicationCost

def bigratDivisionCost (lengths : Lengths) : Int64 :=
  let crossA := i64 lengths.numA * i64 lengths.denB
  let crossB := i64 lengths.denA * i64 lengths.numB
  max (crossA + crossB + lengths.maxLen) divisionCost

def bigratNegationCost : Nat → Int64 := negationCost

def bigratComparisonCost (lengths : Lengths) : Int64 :=
  let crossWork := max (i64 lengths.numA * i64 lengths.denB) (i64 lengths.numB * i64 lengths.denA)
  max crossWork comparisonCost

end Operators

section Collections

def lookupCost : Int64 := 3

def removeCost : Int64 := 3

def addCost : Int64 := 3

def hexToBytesCost (length : Nat) : Int64 := i64 length

def bytesToHexCost (length : Nat) : Int64 := i64 length

def diffCost (numElements : Int64) : Int64 := removeCost * numElements

def unionCost (numElements : Int64) : Int64 := addCost * numElements

/-- The logarithm is computed in floating point and cut off. -/
def byteArrayAppendCost (length : Nat) : Int64 := if length = 0 then 0 else i64 (Nat.log 10 length)

def listAppendCost (length : Nat) : Int64 := i64 length

def stringAppendCost (n m : Int64) : Int64 := n + m

def interpolateCost (strLength mapSize : Int64) : Int64 := strLength * mapSize

def toByteArrayCost (encodedLen : Nat) : Int64 := i64 encodedLen

def sizeMethodCost (size : Int64) : Int64 := size

def sliceCost (until_ : Int64) : Int64 := until_

def takeCost (until_ : Int64) : Int64 := until_

def toListCost (size : Int64) : Int64 := size

end Collections

section Evaluation

def parsingCost (length : Nat) : Int64 := i64 length

def nthMethodCallCost : Int64 := 10

def keysMethodCost : Int64 := 10

def lengthMethodCost : Int64 := 10

def methodCallCost : Int64 := 10

def opCallCost : Int64 := 10

def varEvalCost : Int64 := 10

def sendEvalCost : Int64 := 11

def receiveEvalCost : Int64 := 11

def newBindingCost : Int64 := 2

def newEvalCost : Int64 := 10

def newBindingsCost (n : Int64) : Int64 := newBindingCost * n + newEvalCost

def matchEvalCost : Int64 := 12

end Evaluation

section Storage

def hashLength : Int64 := 32

/-- What a consume stores: the encoded lengths of its channels, its patterns and its body. -/
def storageCostConsume (channels patterns : List Nat) (body : Nat) : Int64 :=
  i64 channels.sum + i64 patterns.sum + i64 body

def storageCostProduce (channel : Nat) (data : List Nat) : Int64 :=
  i64 channel + (data.map i64).sum

theorem storageCostProduce_eq (channel : Nat) (data : List Nat) :
    storageCostProduce channel data = i64 (channel + data.sum) := by
  have sum_eq : (data.map i64).sum = i64 data.sum := by
    induction data with
    | nil => rfl
    | cons length data ih => rw [List.map_cons, List.sum_cons, List.sum_cons, ih, i64_add]
  rw [storageCostProduce, sum_eq, i64_add]

def eventStorageCost (channelsInvolved : Int64) : Int64 :=
  hashLength + channelsInvolved * hashLength

def commEventStorageCost (channelsInvolved : Int64) : Int64 :=
  eventStorageCost channelsInvolved + eventStorageCost 1 * channelsInvolved

theorem eventStorageCost_eq (channels : Nat) :
    eventStorageCost (i64 channels) = i64 (32 + channels * 32) := by
  rw [i64_add, i64_mul]
  rfl

theorem commEventStorageCost_eq (channels : Nat) :
    commEventStorageCost (i64 channels) = i64 (32 + channels * 32 + 64 * channels) := by
  have single : eventStorageCost 1 = i64 64 := rfl
  rw [commEventStorageCost, eventStorageCost_eq, single, ← i64_mul, ← i64_add]

end Storage

/-- The places where the evaluation of a term charges, with what they read. Lengths are those of
terms in memory, and the other numbers are the program's own. -/
inductive ChargeSite where
  | sendEval
  | receiveEval
  | varEval
  | matchEval
  | newBindings (bindCount : Size)
  | substitution (encodedLen : Size)
  | methodCall
  | opCall
  | comparison
  | bigintComparison (aLen bLen : Size)
  | bigratComparison (lengths : Lengths)
  | bigintNegation (len : Size)
  | bigratNegation (len : Size)
  | multiplication
  | bigintMultiplication (aLen bLen : Size)
  | bigratMultiplication (lengths : Lengths)
  | division
  | bigintDivision (aLen bLen : Size)
  | bigratDivision (lengths : Lengths)
  | modulo
  | bigintModulo (aLen bLen : Size)
  | sum
  | bigintSum (aLen bLen : Size)
  | bigratSum (lengths : Lengths)
  | subtraction
  | bigintSubtraction (aLen bLen : Size)
  | bigratSubtraction (lengths : Lengths)
  | equalityCheck (sizeX sizeY : Size)
  | booleanAnd
  | booleanOr
  | interpolate (strLength mapSize : Size)
  | stringAppend (n m : Size)
  | byteArrayAppend (length : Size)
  | listAppend (length : Size)
  | nthMethodCall
  | toByteArray (encodedLen : Size)
  | hexToBytes (length : Size)
  | bytesToHex (length : Size)
  | union (elements : Size)
  | diff (elements : Size)
  /-- The method refuses negative numbers. -/
  | dropHead (n : Fin (2 ^ 63))
  | lookup
  | add
  | remove
  | keysMethod
  | sizeMethod (size : Size)
  | lengthMethod
  | slice (until_ : Int64)
  | take (until_ : Int64)
  | toList (size : Size)

def ChargeSite.amount : ChargeSite → Int64
  | sendEval => sendEvalCost
  | receiveEval => receiveEvalCost
  | varEval => varEvalCost
  | matchEval => matchEvalCost
  | newBindings bindCount => newBindingsCost (i64 bindCount)
  | substitution encodedLen => i64 encodedLen
  | methodCall => methodCallCost
  | opCall => opCallCost
  | comparison => comparisonCost
  | bigintComparison aLen bLen => bigintComparisonCost aLen bLen
  | bigratComparison lengths => bigratComparisonCost lengths
  | bigintNegation len => bigintNegationCost len
  | bigratNegation len => bigratNegationCost len
  | multiplication => multiplicationCost
  | bigintMultiplication aLen bLen => bigintMultiplicationCost aLen bLen
  | bigratMultiplication lengths => bigratMultiplicationCost lengths
  | division => divisionCost
  | bigintDivision aLen bLen => bigintDivisionCost aLen bLen
  | bigratDivision lengths => bigratDivisionCost lengths
  | modulo => moduloCost
  | bigintModulo aLen bLen => bigintModuloCost aLen bLen
  | sum => sumCost
  | bigintSum aLen bLen => bigintSumCost aLen bLen
  | bigratSum lengths => bigratSumCost lengths
  | subtraction => subtractionCost
  | bigintSubtraction aLen bLen => bigintSubtractionCost aLen bLen
  | bigratSubtraction lengths => bigratSubtractionCost lengths
  | equalityCheck sizeX sizeY => equalityCheckCost sizeX sizeY
  | booleanAnd => booleanAndCost
  | booleanOr => booleanOrCost
  | interpolate strLength mapSize => interpolateCost (i64 strLength) (i64 mapSize)
  | stringAppend n m => stringAppendCost (i64 n) (i64 m)
  | byteArrayAppend length => byteArrayAppendCost length
  | listAppend length => listAppendCost length
  | nthMethodCall => nthMethodCallCost
  | toByteArray encodedLen => toByteArrayCost encodedLen
  | hexToBytes length => hexToBytesCost length
  | bytesToHex length => bytesToHexCost length
  | union elements => unionCost (i64 elements)
  | diff elements => diffCost (i64 elements)
  | dropHead n => unionCost (i64 n)
  | lookup => lookupCost
  | add => addCost
  | remove => removeCost
  | keysMethod => keysMethodCost
  | sizeMethod size => sizeMethodCost (i64 size)
  | lengthMethod => lengthMethodCost
  | slice until_ => sliceCost until_
  | take until_ => takeCost until_
  | toList size => toListCost (i64 size)

end F1r3fly.Rholang.Accounting
