/-!
# Sets of code points given by ranges

A property of characters is written as the list of its maximal runs, in increasing order, each by
its first and last code point.
-/

namespace Deferral.Text

/-- Whether `code` lies in one of the increasing `ranges`; the search ends at the first range that
starts beyond it. -/
def inRanges (ranges : List (Nat × Nat)) (code : Nat) : Bool :=
  match ranges with
  | [] => false
  | (first, last) :: rest =>
    if code < first then false
    else if code ≤ last then true
    else inRanges rest code

end Deferral.Text
