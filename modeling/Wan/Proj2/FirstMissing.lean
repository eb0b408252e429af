import Wan.Proj2.RtNet

/-!
# Whether `cum_seq` waits for a missing number

Two places move `cum_seq`. The scan leaves it at the first missing number behind
the awaited one, unless it runs into its cap. The jump past expired packets
leaves it right behind the last of them, whether or not that number is held; if
it is, no NACK asks for it and `cum_seq` stays until the next jump.
-/

namespace Wan.Proj2

open Posix Lib

variable {r : RtRcvState} {pkt : NetPkt} {clock : ℕ → ℤ} {cum : ℕ} {held : List ℕ}

end Wan.Proj2
