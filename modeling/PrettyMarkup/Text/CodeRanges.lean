/-!
# Ranges of character codes

A property of characters is held as the ranges of the codes that have it.
-/

namespace PrettyMarkup

namespace Text

/-- Closed ranges of codes, each with its first code and its last. -/
abbrev CodeRanges := List (Nat × Nat)

namespace CodeRanges

/-- Whether a character's code lies in one of the ranges. -/
def holds (ranges : CodeRanges) (c : Char) : Bool :=
  ranges.any fun (first, last) => first ≤ c.toNat && c.toNat ≤ last

end CodeRanges

end Text

end PrettyMarkup
