/-!
# Sets of characters as runs

A Unicode property holds on runs of consecutive code points. Such a set is kept as the ascending
list of the code points at which membership changes: the first opens a run, the second closes it
(and is outside), the third opens the next. `inRuns` reads the list back as a test.
-/

namespace UdfBridge.Text

/-- Whether `n` lies in one of the runs that `bounds` alternately opens and closes. -/
def inRuns : List Nat → Nat → Bool
  | [], _ => false
  | b :: bounds, n => if n < b then false else !inRuns bounds n

end UdfBridge.Text
