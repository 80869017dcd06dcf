-- Sets of code points, given as ascending ranges.

namespace SigningSchema.Unicode

def within (ranges : List (Nat × Nat)) (n : Nat) : Bool :=
  match ranges with
  | [] => false
  | (low, high) :: rest => if n < low then false else n ≤ high || within rest n

-- A range of which every `step`-th code point counts.
structure Run where
  low : Nat
  high : Nat
  step : Nat

def Run.contains (run : Run) (n : Nat) : Bool :=
  run.low ≤ n && n ≤ run.high && (n - run.low) % run.step = 0

end SigningSchema.Unicode
