import CkbVote.BlockBinding
import CkbVote.GeneratedCount
import CkbVote.HostMain
import CkbVote.Lifecycle
import CkbVote.Query
import CkbVote.Settlement
import CkbVote.ShallowVerify
import CkbVote.Tally
import CkbVote.UncheckedReaders
import CkbVote.Verdict
import CkbVote.VoteAgreement
import CkbVote.VoteWeight
