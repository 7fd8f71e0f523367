import Std.Data.HashMap.Basic
import Std.Data.TreeMap.Basic

/- Valuations. A valuation says of each name whether it is true, false or not
   assigned; evaluation knows no more about it than this answer. Finite maps of
   either kind are read as valuations by looking the name up. -/
namespace Sentential

/-- A partial assignment of truth values to names. -/
abbrev Valuation := String → Option Bool

/-- A finite assignment whose entries are listed in ascending order of names. -/
abbrev Assignment := Std.TreeMap String Bool

namespace Valuation

/-- The valuation that a hash map holds. -/
def ofHashMap (m : Std.HashMap String Bool) : Valuation := fun name => m[name]?

/-- The valuation that an ordered map holds. -/
def ofTreeMap (m : Std.TreeMap String Bool) : Valuation := fun name => m[name]?

end Valuation

/-- The valuation that an assignment holds. -/
def Assignment.valuation (m : Assignment) : Valuation := Valuation.ofTreeMap m

end Sentential
