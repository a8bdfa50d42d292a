import Qualifier.Double.Shortest

/-!
# The text of a double

A double is written with its shortest decimal in positional notation, whatever its size. The text
of a finite double is a numeral without a point at its end and without an exponent.
-/

namespace Qualifier.Double

/-- The text of a double. Of two equally near shortest decimals the greater one is written, and
both zeros are written alike. -/
def text : Double → String
  | .nan => "NaN"
  | .infinite false => "inf"
  | .infinite true => "-inf"
  | .finite negative rank =>
    if rank.val = 0 then "0"
    else
      let digits := ((Cell.ofRank rank).shortest .up).positional
      String.ofList (if negative then '-' :: digits else digits)

end Qualifier.Double
