import Sniper.Replacement.RecencyOrder
import Sniper.Replacement.Selection

/-! `CacheSetLRUL3` gives up blocks that are not valid first, then non loop blocks, then loop blocks. -/

namespace Sniper.Replacement

open Recency

variable {associativity : Nat} {set : Contents} {call : Call} {fields after : LoopBits} {index : Nat}

end Sniper.Replacement
