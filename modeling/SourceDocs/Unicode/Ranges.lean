namespace SourceDocs.Unicode

structure Ranges where
  ranges : List (Nat × Nat)

namespace Ranges

def contains (rs : Ranges) (c : Char) : Bool :=
  rs.ranges.any fun r => r.1 ≤ c.toNat && c.toNat ≤ r.2

end Ranges
end SourceDocs.Unicode
