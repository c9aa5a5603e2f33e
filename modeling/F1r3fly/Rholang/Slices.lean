import Mathlib.Data.List.Infix
import F1r3fly.Data.MachineInt
import F1r3fly.Rholang.Errors

/-! Lengths, slices and concatenations of strings, byte arrays and lists. -/
namespace F1r3fly.Rholang

def byteLength (text : List Char) : Nat := (text.map Char.utf8Size).sum

/-- The byte is the first one of a character, or the end. -/
def ValidAt (text : List Char) (n : Nat) : Prop := ∃ before, before <+: text ∧ byteLength before = n

/-- The text before a byte, unless the byte is within a character. -/
def front (text : List Char) (n : Nat) : Option (List Char) :=
  text.inits.find? fun before => byteLength before = n

theorem front_eq_none : front text n = none ↔ ¬ValidAt text n := by
  simp [front, ValidAt]

theorem front_eq (first : before <+: text) : front text (byteLength before) = some before := by
  cases found : front text (byteLength before) with
  | none => exact absurd ⟨before, first, rfl⟩ (front_eq_none.mp found)
  | some other =>
    have same : byteLength other = byteLength before := by simpa using List.find?_some found
    have other_first := (List.mem_inits ..).mp (List.mem_of_find?_eq_some found)
    rcases List.prefix_or_prefix_of_prefix first other_first with ⟨rest, rfl⟩ | ⟨rest, rfl⟩
    all_goals
      cases rest with
      | nil => simp
      | cons c rest =>
        have pos := c.utf8Size_pos
        simp [byteLength] at same
        omega

structure EList (Par Var : Type) where
  ps : List Par
  connectiveUsed : Bool
  remainder : Option Var

/-- The values of a running program, without maps and sets. -/
inductive Expr (Par Var : Type) where
  | gInt (value : Int64)
  | gString (string : List Char)
  | gByteArray (bytes : List UInt8)
  | eListBody (list : EList Par Var)
  | other (type : String)

inductive Halt where
  | error (error : InterpreterError)
  | panic

variable {Par Var : Type}

def getType : Expr Par Var → String
  | .gInt _ => "int"
  | .gString _ => "string"
  | .gByteArray _ => "byte array"
  | .eListBody _ => "list"
  | .other type => type

/-- A part of a string has to begin and to end between characters. -/
def substring (string : List Char) (from_ until_ : Nat) : Except Halt (List Char) :=
  match front string from_, front string until_ with
  | some before, some part => .ok (part.drop before.length)
  | _, _ => .error .panic

/-- A part of a vector, or nothing where the vector has no such part. -/
def subvector (items : List α) (from_ until_ : Nat) : List α :=
  if from_ ≤ until_ ∧ until_ ≤ items.length then (items.take until_).drop from_ else []

def slice (base : Expr Par Var) (from_ until_ : Nat) : Except Halt (Expr Par Var) :=
  match base with
  | .gString string =>
    if from_ ≤ until_ ∧ until_ ≤ byteLength string then
      .gString <$> substring string from_ until_
    else .ok (.gString [])
  | .eListBody list => .ok (.eListBody { list with ps := subvector list.ps from_ until_ })
  | .gByteArray bytes => .ok (.gByteArray (subvector bytes from_ until_))
  | other => .error (.error (.methodNotDefined "slice" (getType other)))

/-- A negative number counts as zero. -/
def sliceMethod (base : Expr Par Var) (fromArg toArg : Int64) : Except Halt (Expr Par Var) :=
  slice base fromArg.toNatClampNeg toArg.toNatClampNeg

def length : Expr Par Var → Except Halt Int64
  | .gString string => .ok (.ofNat (byteLength string))
  | .gByteArray bytes => .ok (.ofNat bytes.length)
  | .eListBody list => .ok (.ofNat list.ps.length)
  | other => .error (.error (.methodNotDefined "length" (getType other)))

def plusPlus : Expr Par Var → Expr Par Var → Except Halt (Expr Par Var)
  | .gString lhs, .gString rhs => .ok (.gString (lhs ++ rhs))
  | .gByteArray lhs, .gByteArray rhs => .ok (.gByteArray (lhs ++ rhs))
  | .eListBody lhs, .eListBody rhs =>
    .ok (.eListBody ⟨lhs.ps ++ rhs.ps, lhs.connectiveUsed || rhs.connectiveUsed, none⟩)
  | .gString _, other => .error (.error (.operatorExpectedError "++" "String" (getType other)))
  | .eListBody _, other => .error (.error (.operatorExpectedError "++" "List" (getType other)))
  | other, _ => .error (.error (.operatorNotDefined "++" (getType other)))

/-- The process `v.slice(0, k) ++ v.slice(k, v.length())`. -/
def splitAndAppend (v : Expr Par Var) (k : Int64) : Except Halt (Expr Par Var) := do
  let v1 ← sliceMethod v 0 k
  let v2 ← sliceMethod v k (← length v)
  plusPlus v1 v2

/-- The number of bytes or elements of a string, a byte array or a list without a remainder. -/
def groundLength : Expr Par Var → Option Nat
  | .gString string => some (byteLength string)
  | .gByteArray bytes => some bytes.length
  | .eListBody list => if list.remainder.isNone then some list.ps.length else none
  | _ => none

/-- The position is not within a character of a string. -/
def Cuts (v : Expr Par Var) (n : Nat) : Prop := ∀ string, v = .gString string → ValidAt string n

theorem substring_eq_panic_iff : substring string from_ until_ = .error .panic ↔
    ¬(ValidAt string from_ ∧ ValidAt string until_) := by
  rw [not_and_or, ← front_eq_none, ← front_eq_none, substring]
  cases front string from_ <;> cases front string until_ <;> simp

theorem subvector_append (within : k ≤ items.length) :
    subvector items 0 k ++ subvector items k items.length = items := by
  simp [subvector, within]

theorem slice_eq_panic_iff {base : Expr Par Var} :
    slice base from_ until_ = .error .panic ↔
      ∃ string, base = .gString string ∧ from_ ≤ until_ ∧ until_ ≤ byteLength string ∧
        ¬(ValidAt string from_ ∧ ValidAt string until_) := by
  cases base with
  | gString string =>
    simp only [slice, Expr.gString.injEq, exists_eq_left', ← substring_eq_panic_iff]
    split_ifs with inside
    · cases substring string from_ until_ <;> simp [inside]
    · simp [← and_assoc, inside]
  | gInt | gByteArray | eListBody | other => simp [slice]

/-- A slice panics exactly if it cuts a character of a string, and two slices give the value
again exactly if they do not. -/
theorem splitAndAppend_iff (v : Expr Par Var) (k : Int64) (ground : groundLength v = some size)
    (fits : size < 2 ^ 63) (high : k.toInt ≤ size) :
    (splitAndAppend v k = .ok v ↔ Cuts v k.toNatClampNeg) ∧
      ∀ (base : Expr Par Var) (fromArg toArg : Int64),
        sliceMethod base fromArg toArg = .error .panic ↔
          ∃ string, base = .gString string ∧ fromArg.toNatClampNeg ≤ toArg.toNatClampNeg ∧
            toArg.toNatClampNeg ≤ byteLength string ∧ ¬(ValidAt string fromArg.toNatClampNeg ∧
              ValidAt string toArg.toNatClampNeg) := by
  refine ⟨?_, fun _ _ _ => slice_eq_panic_iff⟩
  have whole : (Int64.ofNat size).toNatClampNeg = size := Int64.toNatClampNeg_ofNat_of_lt fits
  have within : k.toNatClampNeg ≤ size := by
    rw [Int64.toNatClampNeg]
    omega
  have from_zero : (0 : Int64).toNatClampNeg = 0 := rfl
  simp only [splitAndAppend, sliceMethod, from_zero, bind, Except.bind]
  generalize k.toNatClampNeg = n at within
  cases v with
  | gInt | other => cases ground
  | gString string =>
    cases ground
    have cuts : Cuts (.gString string : Expr Par Var) n ↔ ValidAt string n := by simp [Cuts]
    simp only [cuts, slice, length, whole, within, Nat.zero_le, le_refl, and_self, if_true]
    constructor
    · intro joined
      by_contra invalid
      rw [substring_eq_panic_iff.mpr fun valid => invalid valid.2] at joined
      cases joined
    · rintro ⟨before, ⟨after, rfl⟩, rfl⟩
      have nothing : front (before ++ after) 0 = some [] := front_eq List.nil_prefix
      have until_cut := front_eq (List.prefix_append before after)
      have until_end := front_eq (List.prefix_refl (before ++ after))
      simp [substring, nothing, until_cut, until_end, plusPlus]
  | gByteArray bytes =>
    cases ground
    simp only [slice, length, whole, plusPlus, subvector_append within]
    simp [Cuts]
  | eListBody list =>
    obtain ⟨ps, connectiveUsed, _ | remainder⟩ := list
    · cases ground
      simp only [slice, length, whole, plusPlus, subvector_append within]
      simp [Cuts]
    · cases ground

/-- The two halves of a character. -/
theorem slice_panics_within_character :
    splitAndAppend (.gString ['é'] : Expr Unit Unit) 1 = .error .panic := by
  rfl

theorem splitAndAppend_of_text :
    splitAndAppend (.gString ['a', 'é'] : Expr Unit Unit) 1 = .ok (.gString ['a', 'é']) := by
  have ground : groundLength (.gString ['a', 'é'] : Expr Unit Unit) = some 3 := rfl
  refine (splitAndAppend_iff _ 1 ground (by decide) (by decide)).1.mpr ?_
  rintro _ ⟨⟩
  exact ⟨['a'], by decide, rfl⟩

end F1r3fly.Rholang
