import Mathlib.Data.Rat.Defs
import RcppDeepState.Library.Text
import RcppDeepState.Generators.Range

/-!
# Random containers

The vectors and matrices that a harness draws. A run is given by the raw draws it reads, named by the call that
reads them; `none` is an element that still has the zero it was allocated with.
-/

namespace RcppDeepState

/-! ## Containers -/

/-- A `double` of R. -/
inductive Double where
  | finite (q : ℚ)
  | nan
  | posInf
  | negInf
  | na
  deriving DecidableEq

/-- An element of a character vector. -/
inductive CharSxp where
  | string (s : Text)
  | na
  deriving DecidableEq

/-- `NA_INTEGER`. -/
def naInteger : BitVec 32 := BitVec.intMin 32

abbrev Cells (α : Type) := List (Option α)

variable {α : Type}

def allocate (length : ℕ) : Cells α := List.replicate length none

/-- `c[i] = v`. -/
def Cells.put (c : Cells α) (i : BitVec 32) (v : α) : Except Fault (Cells α) :=
  if 0 ≤ i.toInt ∧ i.toInt < c.length then .ok (c.set i.toInt.toNat (some v)) else .error .outOfBounds

/-- `for (int i = 0; i < bound; i++)`, with the body at `i`. -/
def forLoop {σ : Type} (bound : BitVec 32) (body : ℕ → σ → Except Fault σ) (s : σ) : Except Fault σ :=
  (List.range bound.toInt.toNat).foldlM (fun s i => body i s) s

/-- `OneOf` of an array, for the raw draw `x`. -/
def oneOf (arr : List α) (x : BitVec 32) : Except Fault α := do
  let i ← deepStateIntInRange 0 (BitVec.ofNat 32 arr.length - 1) x
  if i.toInt < 0 then .error .outOfBounds
  else match arr[i.toInt.toNat]? with
    | some v => .ok v
    | none => .error .outOfBounds

/-! ## The draws of a run -/

structure Draws (α : Type) where
  size : BitVec 32
  rows : BitVec 32
  columns : BitVec 32
  /-- The first entry of `missing_values`. -/
  special : α
  /-- Whether `OneOf` takes its second function. -/
  second : Bool
  /-- The draw for each element in order. -/
  element : ℕ → α
  /-- The position and the entry of `missing_values` that each overwrite draws. -/
  position : ℕ → BitVec 32
  entry : ℕ → BitVec 32

/-! ## The loops -/

/-- The loop that fills the container. -/
def fill (bound : BitVec 32) (value : ℕ → Except Fault α) (c : Cells α) : Except Fault (Cells α) :=
  forLoop bound (fun i c => do c.put (BitVec.ofNat 32 i) (← value i)) c

/-- The loop that puts missing values at random positions. -/
def overwrite (times last : BitVec 32) (missingValues : List α) (d : Draws α) (c : Cells α) :
    Except Fault (Cells α) :=
  forLoop times (fun k c => do
    let v ← oneOf missingValues (d.entry k)
    let i ← deepStateIntInRange 0 last (d.position k)
    c.put i v) c

/-- The two functions of `OneOf`: the second leaves the last `lag` elements to the overwrites. -/
def fillOneOf (count lag times : BitVec 32) (missingValues : List α) (value : ℕ → Except Fault α) (d : Draws α)
    (c : Cells α) : Except Fault (Cells α) :=
  if d.second then do
    let c ← fill (count - lag) value c
    overwrite times (count - 1) missingValues d c
  else fill count value c

/-! ## The generators -/

def missingDoubles (special : Double) : List Double := [special, .nan, .posInf, .negInf, .na]

def missingIntegers (special : BitVec 32) : List (BitVec 32) := [special, naInteger]

section Generators

-- `DeepState_DoubleInRange`, which is compiled elsewhere.
variable (doubleInRange : ℚ → ℚ → Double → Double)

def rcppDeepStateNumericVector (d : Draws Double) : Except Fault (Cells Double) := do
  let size ← deepStateIntInRange 0 100 d.size
  fillOneOf size 1 5 (missingDoubles d.special) (fun i => .ok (d.element i)) d (allocate size.toInt.toNat)

def rcppDeepStateNumericVectorInRange (size low high : BitVec 32) (d : Draws Double) :
    Except Fault (Cells Double) :=
  fillOneOf size 1 5 (missingDoubles d.special)
    (fun i => .ok (doubleInRange low.toInt high.toInt (d.element i))) d (allocate size.toInt.toNat)

def rcppDeepStateIntegerVector (d : Draws (BitVec 32)) : Except Fault (Cells (BitVec 32)) := do
  let size ← deepStateIntInRange 0 100 d.size
  fillOneOf size 0 2 (missingIntegers d.special) (fun i => .ok (d.element i)) d (allocate size.toInt.toNat)

def rcppDeepStateIntegerVectorInRange (size low high : BitVec 32) (d : Draws (BitVec 32)) :
    Except Fault (Cells (BitVec 32)) :=
  fillOneOf size 0 2 (missingIntegers d.special) (fun i => deepStateIntInRange low high (d.element i)) d
    (allocate size.toInt.toNat)

def rcppDeepStateNumericMatrix (d : Draws Double) : Except Fault (Cells Double) := do
  let rows ← deepStateIntInRange 1 10 d.rows
  let columns ← deepStateIntInRange 1 10 d.columns
  fillOneOf (rows * columns) 0 5 (missingDoubles d.special)
    (fun i => .ok (doubleInRange 0 (17 * 10 ^ 307) (d.element i))) d
    (allocate (rows.toInt.toNat * columns.toInt.toNat))

def rcppDeepStateNumericMatrixInRange (rows columns low high : BitVec 32) (d : Draws Double) :
    Except Fault (Cells Double) :=
  fillOneOf (rows * columns) 0 5 (missingDoubles d.special)
    (fun i => .ok (doubleInRange low.toInt high.toInt (d.element i))) d
    (allocate (rows.toInt.toNat * columns.toInt.toNat))

def rcppDeepStateIntegerMatrix (d : Draws (BitVec 32)) : Except Fault (Cells (BitVec 32)) := do
  let rows ← deepStateIntInRange 1 10 d.rows
  let columns ← deepStateIntInRange 1 10 d.columns
  fillOneOf (rows * columns) 0 5 (missingIntegers d.special)
    (fun i => deepStateIntInRange 0 100 (d.element i)) d (allocate (rows.toInt.toNat * columns.toInt.toNat))

def rcppDeepStateIntegerMatrixInRange (rows columns low high : BitVec 32) (d : Draws (BitVec 32)) :
    Except Fault (Cells (BitVec 32)) :=
  fillOneOf (rows * columns) 0 5 (missingIntegers d.special)
    (fun i => deepStateIntInRange low high (d.element i)) d (allocate (rows.toInt.toNat * columns.toInt.toNat))

/-- `OneOf` takes `choice i` for element `i`. -/
def rcppDeepStateCharacterVector (size : BitVec 32) (choice : ℕ → Fin 3) (cStr cStrUpToLen : ℕ → Text) :
    Except Fault (Cells CharSxp) := do
  let size ← deepStateIntInRange 0 100 size
  fill size (fun i => .ok (match choice i with
    | 0 => .string (cStr i)
    | 1 => .string (cStrUpToLen i)
    | 2 => .na)) (allocate size.toInt.toNat)

/-- `arma::mat` keeps its elements column by column. -/
def rcppDeepStateMat (rows columns : BitVec 32) (element : ℕ → ℕ → Double) : Except Fault (Cells Double) := do
  let rows ← deepStateIntInRange 1 10 rows
  let columns ← deepStateIntInRange 1 10 columns
  forLoop rows (fun i => forLoop columns fun j c =>
    c.put (BitVec.ofNat 32 i + BitVec.ofNat 32 j * rows) (element i j))
    (allocate (rows.toInt.toNat * columns.toInt.toNat))

/-- The generators of numeric and integer containers, with their arguments. -/
inductive Generator : Type → Type 1 where
  | numericVector : Generator Double
  | numericVectorInRange (size low high : BitVec 32) : Generator Double
  | integerVector : Generator (BitVec 32)
  | integerVectorInRange (size low high : BitVec 32) : Generator (BitVec 32)
  | numericMatrix : Generator Double
  | numericMatrixInRange (rows columns low high : BitVec 32) : Generator Double
  | integerMatrix : Generator (BitVec 32)
  | integerMatrixInRange (rows columns low high : BitVec 32) : Generator (BitVec 32)

def Generator.run {α : Type} : Generator α → Draws α → Except Fault (Cells α)
  | .numericVector, d => rcppDeepStateNumericVector d
  | .numericVectorInRange size low high, d => rcppDeepStateNumericVectorInRange doubleInRange size low high d
  | .integerVector, d => rcppDeepStateIntegerVector d
  | .integerVectorInRange size low high, d => rcppDeepStateIntegerVectorInRange size low high d
  | .numericMatrix, d => rcppDeepStateNumericMatrix doubleInRange d
  | .numericMatrixInRange rows columns low high, d =>
    rcppDeepStateNumericMatrixInRange doubleInRange rows columns low high d
  | .integerMatrix, d => rcppDeepStateIntegerMatrix d
  | .integerMatrixInRange rows columns low high, d =>
    rcppDeepStateIntegerMatrixInRange rows columns low high d

/-- The size arguments are not negative. -/
def Generator.Sized {α : Type} : Generator α → Prop
  | .numericVectorInRange size _ _ => 0 ≤ size.toInt
  | .integerVectorInRange size _ _ => 0 ≤ size.toInt
  | .numericMatrixInRange rows columns _ _ => 0 ≤ rows.toInt ∧ 0 ≤ columns.toInt
  | .integerMatrixInRange rows columns _ _ => 0 ≤ rows.toInt ∧ 0 ≤ columns.toInt
  | _ => True

end Generators

end RcppDeepState
