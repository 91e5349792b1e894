/-!
Sorting by exchanges within an array: short ranges by insertion, longer ones around a pivot that is
a median of three or of nine, and by a heap where the pivots were bad too often. The test for what
comes first need not be an order; which places are compared is then part of the result.
-/

namespace EntryCode.Quicksort

variable {α : Type}

def comes (before : α → α → Bool) (xs : Array α) (i j : Nat) : Bool :=
  match xs[i]?, xs[j]? with
  | some x, some y => before x y
  | _, _ => false

section Short

variable (before : α → α → Bool)

/-- Moves the element at `low + n` down, as far as it comes before the one below it. -/
def sink (low : Nat) : Nat → Array α → Array α
  | 0, xs => xs
  | n + 1, xs =>
    if comes before xs (low + n + 1) (low + n) then
      sink low n (xs.swapIfInBounds (low + n + 1) (low + n))
    else xs

/-- Moves the element at `i` up, as far as the one above comes before it. -/
def rise : Nat → Nat → Array α → Array α
  | 0, _, xs => xs
  | n + 1, i, xs =>
    if comes before xs (i + 1) i then rise n (i + 1) (xs.swapIfInBounds (i + 1) i) else xs

def insertion (low high : Nat) (xs : Array α) : Array α :=
  (List.range (high - low)).foldl (fun xs n => sink before low n xs) xs

end Short

section Heap

variable (before : α → α → Bool)

/-- Lets the element at `root` go down in the heap of `size` elements from `first` on. -/
def settle (first size : Nat) : Nat → Nat → Array α → Array α
  | 0, _, xs => xs
  | fuel + 1, root, xs =>
    let left := 2 * root + 1
    if size ≤ left then xs
    else
      let hasBetter := left + 1 < size ∧ comes before xs (first + left) (first + left + 1)
      let child := if hasBetter then left + 1 else left
      if comes before xs (first + root) (first + child) then
        settle first size fuel child (xs.swapIfInBounds (first + root) (first + child))
      else xs

def heap (low high : Nat) (xs : Array α) : Array α :=
  let size := high - low
  let built := (List.range ((size - 1) / 2 + 1)).reverse.foldl
    (fun xs root => settle before low size size root xs) xs
  (List.range size).reverse.foldl
    (fun xs n => settle before low n size 0 (xs.swapIfInBounds low (low + n))) built

end Heap

section Pivot

def scramble (r : UInt64) : UInt64 :=
  let r := r ^^^ (r <<< 13)
  let r := r ^^^ (r >>> 7)
  r ^^^ (r <<< 17)

def scatter (low high : Nat) (xs : Array α) : Array α :=
  let length := high - low
  if length < 8 then xs
  else
    let size := 1 <<< (length.log2 + 1)
    let middle := low + length / 4 * 2 - 1
    ((List.range 3).foldl (fun (xs, r) i =>
      let r := scramble r
      let other := r.toNat % size
      let other := if length ≤ other then other - length else other
      (xs.swapIfInBounds (middle - 1 + i) (low + other), r)) (xs, length.toUInt64)).1

variable (before : α → α → Bool) (xs : Array α)

/-- Two places, that of the element that comes first before the other; `swaps` counts those that
stood the wrong way round. -/
def ordered (i j swaps : Nat) : Nat × Nat × Nat :=
  if comes before xs j i then (j, i, swaps + 1) else (i, j, swaps)

def median (i j k swaps : Nat) : Nat × Nat :=
  let (i, j, swaps) := ordered before xs i j swaps
  let (j, _, swaps) := ordered before xs j k swaps
  let (_, j, swaps) := ordered before xs i j swaps
  (j, swaps)

/-- The place of a pivot, and how many of the elements looked at stood the wrong way round. -/
def pivot (low high : Nat) : Nat × Nat :=
  let length := high - low
  let (i, j, k) := (low + length / 4, low + length / 4 * 2, low + length / 4 * 3)
  if length < 8 then (j, 0)
  else if length < 50 then median before xs i j k 0
  else
    let (i, swaps) := median before xs (i - 1) i (i + 1) 0
    let (j, swaps) := median before xs (j - 1) j (j + 1) swaps
    let (k, swaps) := median before xs (k - 1) k (k + 1) swaps
    median before xs i j k swaps

end Pivot

section Partition

/-- The first place from `i` on at which a test fails, at most `n` places further. -/
def climb (test : Nat → Bool) : Nat → Nat → Nat
  | 0, i => i
  | n + 1, i => if test i then climb test n (i + 1) else i

/-- The first place from `j` down at which a test fails, at most `n` places further. -/
def fall (test : Nat → Bool) : Nat → Nat → Nat
  | 0, j => j
  | n + 1, j => if test j then fall test n (j - 1) else j

/-- Exchanges elements that are not low with ones that are not high, from both ends of a range
until they meet. Gives where they met, and whether nothing was exchanged. -/
def exchange (isLow isHigh : Array α → Nat → Bool) :
    Nat → Array α → Nat → Nat → Bool → Array α × Nat × Nat × Bool
  | 0, xs, i, j, clean => (xs, i, j, clean)
  | fuel + 1, xs, i, j, clean =>
    let i := climb (isLow xs) (j + 1 - i) i
    let j := fall (isHigh xs) (j + 1 - i) j
    if j < i then (xs, i, j, clean)
    else exchange isLow isHigh fuel (xs.swapIfInBounds i j) (i + 1) (j - 1) false

variable (before : α → α → Bool)

def partition (low high pivot : Nat) (xs : Array α) : Array α × Nat × Bool :=
  let xs := xs.swapIfInBounds low pivot
  let (xs, _, j, clean) := exchange (fun xs i => comes before xs i low)
    (fun xs j => !comes before xs j low) (high - low) xs (low + 1) (high - 1) true
  (xs.swapIfInBounds j low, j, clean)

/-- Brings what does not come after the pivot to the left. -/
def partitionEqual (low high pivot : Nat) (xs : Array α) : Array α × Nat :=
  let xs := xs.swapIfInBounds low pivot
  let (xs, i, _, _) := exchange (fun xs i => !comes before xs low i)
    (fun xs j => comes before xs low j) (high - low) xs (low + 1) (high - 1) true
  (xs, i)

/-- Puts a few elements in place. Tells whether the range is then sorted. -/
def mend (low high : Nat) : Nat → Nat → Array α → Array α × Bool
  | 0, _, xs => (xs, false)
  | steps + 1, i, xs =>
    let i := climb (fun i => !comes before xs i (i - 1)) (high - i) i
    if high ≤ i then (xs, true)
    else if high - low < 50 then (xs, false)
    else
      let xs := xs.swapIfInBounds i (i - 1)
      let xs := if low + 2 ≤ i then sink before 0 (i - 1) xs else xs
      let xs := if i + 2 ≤ high then rise before (high - i - 1) i xs else xs
      mend low high steps i xs

end Partition

/-- Sorts a range. `limit` is the number of bad pivots that are put up with; `balanced` and `clean`
tell how the last partition went. -/
def range (before : α → α → Bool) :
    Nat → Nat → Nat → Nat → Bool → Bool → Array α → Array α
  | 0, _, _, _, _, _, xs => xs
  | fuel + 1, low, high, limit, balanced, clean, xs =>
    let length := high - low
    if length ≤ 12 then insertion before low high xs
    else if limit = 0 then heap before low high xs
    else
      let (xs, limit) := if balanced then (xs, limit) else (scatter low high xs, limit - 1)
      let (p, swaps) := pivot before xs low high
      let (xs, p, rising) :=
        if swaps = 12 then
          (xs.extract 0 low ++ (xs.extract low high).reverse ++ xs.extract high xs.size,
            high - 1 - (p - low), true)
        else (xs, p, swaps = 0)
      let (xs, done) :=
        if balanced && clean && rising then mend before low high 5 (low + 1) xs else (xs, false)
      if done then xs
      else if 0 < low && !comes before xs (low - 1) p then
        let (xs, middle) := partitionEqual before low high p xs
        range before fuel middle high limit balanced clean xs
      else
        let (xs, middle, clean) := partition before low high p xs
        let (left, right) := (middle - low, high - middle)
        if left < right then
          range before fuel (middle + 1) high limit (length / 8 ≤ left) clean
            (range before fuel low middle limit true true xs)
        else
          range before fuel low middle limit (length / 8 ≤ right) clean
            (range before fuel (middle + 1) high limit true true xs)

/-- Sorts an array; `before` tells whether an element comes before another one. -/
def sort (before : α → α → Bool) (xs : Array α) : Array α :=
  range before (xs.size + 1) 0 xs.size (xs.size.log2 + 1) true true xs

end EntryCode.Quicksort
