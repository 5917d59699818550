/-!
# Cutting a text at marks

Paths, queries, addresses and filters are lists written with a mark between the pieces.

* `splitAtFirst` — what stands before the first mark, and what stands after it.
* `pieces` — everything between the marks; there is one piece more than there are marks.
-/

namespace RewindRelay.Text

/-- The characters before the first mark, and those after it. -/
def splitAtFirst (isMark : Char → Bool) (cs : List Char) : List Char × List Char :=
  (cs.takeWhile fun c => !isMark c, (cs.dropWhile fun c => !isMark c).drop 1)

def pieces (isMark : Char → Bool) (cs : List Char) : List (List Char) :=
  cs.foldr (fun c pieces =>
    if isMark c then [] :: pieces
    else match pieces with
      | piece :: rest => (c :: piece) :: rest
      | [] => [[c]]) [[]]

end RewindRelay.Text
