/-!
# Blank characters

Blanks are the characters with the Unicode property White_Space.

* `trim`: the text without the blanks at its two ends;
* `words`: the maximal runs of characters that are no blanks;
* `squeeze`: those runs with one space between neighbours.
-/

namespace MeterCheck.Text

/-- Has the Unicode property White_Space. -/
def isBlank (c : Char) : Bool :=
  let n := c.toNat
  (0x09 ≤ n && n ≤ 0x0D) || n == 0x20 || n == 0x85 || n == 0xA0 || n == 0x1680
    || (0x2000 ≤ n && n ≤ 0x200A) || n == 0x2028 || n == 0x2029 || n == 0x202F
    || n == 0x205F || n == 0x3000

/-- The characters up to the last one that is no blank. -/
def trimEnd (cs : List Char) : List Char :=
  (cs.reverse.dropWhile isBlank).reverse

def trim (cs : List Char) : List Char :=
  trimEnd (cs.dropWhile isBlank)

/-- The runs between blanks, in order; none is empty. -/
def words (cs : List Char) : List (List Char) :=
  (cs.splitOnP isBlank).filter (! ·.isEmpty)

/-- The words with a single space between neighbours. -/
def squeeze (cs : List Char) : List Char :=
  [' '].intercalate (words cs)

end MeterCheck.Text
