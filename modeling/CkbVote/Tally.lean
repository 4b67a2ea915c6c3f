import CkbVote.Verified

/-!
# What the tally counts

The results about `count_vote` that only concern the window of transactions.
Throughout, `txs` is the window of a block vector on which `count_vote` gets
past the block-count check, and a voter is the hash of a lock.

* `voteMap_iff_trace` — the two mutable maps, read off the transaction trace.
* `countVote_reordering` — the order of different voters' transactions is
  irrelevant.
* `counted_backed_iff` — a counted vote is backed by unspent deposits, except
  when the transaction that casts it spends one of them itself: inputs are
  processed before outputs.
* `kept_counted_iff` — a vote whose deposits stay unspent is counted,
  except when a deposit named only by a vote it replaced is spent: the entries
  of replaced votes stay in `dao_outpoint_to_voter`.
-/

namespace CkbVote

open Octets Molecule

section Code

variable [Blake2b] {blocks proposalScript : Bytes} {poll : Poll} {txs : List WindowTx}

/-- `count_vote` gets past the block-count check and its loop ends with these
maps. -/
def LoopEnds (blocks proposalScript : Bytes) (poll : Poll) (maps : Maps) : Prop :=
  PastBlockCheck blocks proposalScript poll ∧ tallyBlocks poll blocks = .ok maps

/-- What is left of `count_vote` after its loop is the verdict on the maps. -/
theorem countVote_of_loopEnds {maps : Maps} (h : LoopEnds blocks proposalScript poll maps) :
    ∃ proposal, findProposal blocks proposalScript = .ok (some proposal) ∧
      countVote blocks proposalScript = .ok (verdict proposal poll.minimalReq maps) := by
  obtain ⟨⟨proposal, hfind, hpoll, hcount⟩, htally⟩ := h
  refine ⟨proposal, hfind, ?_⟩
  simp only [countVote, hfind, ok_bind, hpoll, hcount, htally]
  simp

/-- Past the block-count check, a window that reads lets the loop end with the
ballots that stand. -/
theorem loopEnds_of_window (hpast : PastBlockCheck blocks proposalScript poll)
    (hwindow : window poll blocks = .ok txs) :
    ∃ maps, LoopEnds blocks proposalScript poll maps ∧
      ∀ v : Hash32, maps.voteMap[v]? = (Replay.replay blake2b256 txs).standing v := by
  obtain ⟨maps, htally, hmaps⟩ := voteMap_tally hwindow
  exact ⟨maps, ⟨hpast, htally⟩, hmaps⟩

/-- The run has one poll and one pair of maps. -/
theorem LoopEnds.unique {poll' : Poll} {maps maps' : Maps}
    (h : LoopEnds blocks proposalScript poll maps)
    (h' : LoopEnds blocks proposalScript poll' maps') : poll = poll' ∧ maps = maps' := by
  obtain ⟨⟨proposal, hfind, hpoll, -⟩, htally⟩ := h
  obtain ⟨⟨proposal', hfind', hpoll', -⟩, htally'⟩ := h'
  obtain rfl : proposal = proposal' := by simpa [hfind] using hfind'
  obtain rfl : poll = poll' := by simpa [hpoll] using hpoll'
  exact ⟨rfl, by simpa [htally] using htally'⟩

/-- A loop that ended has read a window. -/
theorem LoopEnds.exists_window {maps : Maps} (h : LoopEnds blocks proposalScript poll maps) :
    ∃ txs, window poll blocks = .ok txs ∧
      ∀ v : Hash32, maps.voteMap[v]? = (Replay.replay blake2b256 txs).standing v := by
  obtain ⟨txs, hwindow⟩ := window_of_tally h.2
  obtain ⟨maps', hends, hmaps⟩ := loopEnds_of_window h.1 hwindow
  obtain ⟨-, rfl⟩ := h.unique hends
  exact ⟨txs, hwindow, hmaps⟩

end Code

/-! ## A sample window -/

namespace Sample

/-- A 32-byte digest, written as one number. -/
def digest (n : Nat) : Hash32 := ⟨(leBytes 32 n).reverse, by simp⟩

/-- blake2b-256 on the strings of a table. -/
abbrev tableBlake2b (table : List (Bytes × Nat)) : Blake2b where
  digest s := digest ((table.lookup s).getD 0)

/-- A proposal script: its Type ID, then the key of the guest. -/
def proposalScript : Bytes := Script.newBuilder (List.replicate 32 1) [1]
  ((digest 0x3c2fe552aea0f6f86a9b5602b53b904d67e495c840ea3b48329474f5971e70de).val.take 20 ++
    List.replicate 32 2)

def proposalHash : Hash32 :=
  digest 0x5d526417f8df01d65a596f75667b8a3a4df772e43f670701cd7bae5c07cdaf42

/-- A lock whose args are one byte, twenty times. -/
def lockOf (owner : UInt8) : Bytes :=
  Script.newBuilder (List.replicate 32 4) [1] (List.replicate 20 owner)

def alice : Hash32 :=
  digest 0xd4c922f948a3451ef3bd1560856194cfb058754617869065f508aaf014aa7d68

/-- The digests of the sample scripts. -/
def scriptDigests : List (Bytes × Nat) := [
  (proposalScript, 0x5d526417f8df01d65a596f75667b8a3a4df772e43f670701cd7bae5c07cdaf42),
  (lockOf 5, 0xd4c922f948a3451ef3bd1560856194cfb058754617869065f508aaf014aa7d68),
  (lockOf 6, 0x58926a567e88b8a7e15c6e83d3419d03a257a714298d42a75ee9f2d38fb9f0fc)]

scoped instance (priority := low) voteBlake2b : Blake2b := tableBlake2b scriptDigests

def voteCodeHash : Bytes := List.replicate 32 3

def poll : Poll := ⟨voteCodeHash, [1], 0, 1, ⟨proposalHash.val.take 20, by simp⟩⟩

def outPoint (tx : UInt8) (index : Nat) : OutPoint :=
  ⟨List.replicate 32 tx ++ leBytes 4 index, by simp⟩

/-- A transaction with one output. -/
def rawTx (cellDeps inputs : List OutPoint) (lock type_ data : Bytes) : Bytes :=
  RawTransaction.newBuilder (cellDeps.map fun op => CellDep.newBuilder op.val 0) []
    (inputs.map fun op => CellInput.newBuilder 0 op.val)
    [CellOutput.newBuilder 100 lock type_] [data]

/-- A proposal that is open for one block after its own. -/
def proposal : Bytes := Proposal.newBuilder 1 voteCodeHash [1] [] Script.default 0 0

def proposalTx : Bytes := rawTx [] [outPoint 9 0] (lockOf 9) proposalScript proposal

theorem readPoll_proposal : readPoll proposal proposalScript = .ok poll := by decide +kernel

/-- The cell that `proposalTx` creates. -/
def proposalOutPoint : OutPoint :=
  ⟨(digest 0x0ca0c58bce67fa9017258a3b5c8206179f57f7cfa87b3a4c925c2b00c9610463).val ++ leBytes 4 0,
    by simp⟩

/-- A YES vote of 100 shannon.  Its cell deps are the cell of the proposal and
the cells it names. -/
def voteOn (proposalCell : OutPoint) (owner : UInt8) (inputs named : List OutPoint) : Bytes :=
  rawTx (proposalCell :: named) inputs (lockOf owner)
    (Script.newBuilder voteCodeHash [1] poll.proposalBlake160.val)
    (Vote.newBuilder 1 100 ((List.range named.length).map Nat.succ))

def voteTx (owner : UInt8) (inputs named : List OutPoint) : Bytes :=
  voteOn proposalOutPoint owner inputs named

def spendTx (owner : UInt8) (inputs : List OutPoint) : Bytes := rawTx [] inputs (lockOf owner) [] []

def blocksOf (txs : List (List Bytes)) : Bytes :=
  BlockVec.newBuilder (txs.map fun block =>
    Block.newBuilder (List.replicate 208 0) (block.map fun raw => Transaction.newBuilder raw []))

/-- The window entry of `voteTx`. -/
def voteEntry (owner : UInt8) (inputs named : List OutPoint) : WindowTx :=
  ⟨inputs, [⟨lockOf owner, (1, 100), named⟩]⟩

end Sample

/-! ## The maps, read off the trace -/

section Trace

variable [Blake2b] {blocks proposalScript : Bytes} {poll : Poll} {txs : List WindowTx}

/-- **The vote map on the transaction trace.**  After the loop the map holds a
ballot for a voter exactly when it is the ballot of the voter's last
recognised vote and no later transaction spends an out point the voter owns at
that transaction. -/
theorem voteMap_iff_trace (hpast : PastBlockCheck blocks proposalScript poll)
    (hwindow : window poll blocks = .ok txs) :
    ∃ maps, LoopEnds blocks proposalScript poll maps ∧
      ∀ (v : Hash32) (ballot : Ballot), maps.voteMap[v]? = some ballot ↔
        ∃ t w, Replay.lastVote blake2b256 txs v = some (t, w) ∧ w.ballot = ballot ∧
          ∀ t', t < t' → ∀ x ∈ Replay.inputsAt txs t',
            Replay.ownerAt blake2b256 txs t' x ≠ some v := by
  obtain ⟨maps, hends, hmaps⟩ := loopEnds_of_window hpast hwindow
  refine ⟨maps, hends, fun v ballot => ?_⟩
  rw [hmaps v]
  exact Replay.standing_replay v ballot

end Trace

namespace Sample

/-- Alice votes with one deposit, votes again with another, and spends the
first one after that. -/
def revote : Bytes := blocksOf [[proposalTx, voteTx 5 [outPoint 7 0] [outPoint 6 0]],
  [voteTx 5 [outPoint 7 1] [outPoint 6 1], spendTx 5 [outPoint 6 0]]]

def revoteWindow : List WindowTx := [⟨[outPoint 9 0], []⟩,
  voteEntry 5 [outPoint 7 0] [outPoint 6 0],
  voteEntry 5 [outPoint 7 1] [outPoint 6 1], ⟨[outPoint 6 0], []⟩]

/-- What the checks in front of the loop and the reads of the loop return. -/
def Reads (blocks : Bytes) (count : Nat) (txs : List WindowTx) : Prop :=
  BlockVecReader.verify false blocks = .ok () ∧
    findProposal blocks proposalScript = .ok (some proposal) ∧ itemCount blocks = .ok count ∧
    window poll blocks = .ok txs

instance (blocks : Bytes) (count : Nat) (txs : List WindowTx) :
    Decidable (Reads blocks count txs) :=
  inferInstanceAs (Decidable (_ ∧ _ ∧ _ ∧ _))

theorem Reads.past {blocks : Bytes} {txs : List WindowTx} (h : Reads blocks 2 txs) :
    PastBlockCheck blocks proposalScript poll :=
  ⟨proposal, h.2.1, readPoll_proposal, h.2.2.1⟩

theorem Reads.window_eq {blocks : Bytes} {count : Nat} {txs : List WindowTx}
    (h : Reads blocks count txs) : window poll blocks = .ok txs := h.2.2.2

theorem revote_reads : Reads revote 2 revoteWindow := by decide +kernel

end Sample

open Sample in
theorem voteMap_iff_trace_revote : ∃ maps, LoopEnds revote Sample.proposalScript Sample.poll maps ∧
    ∀ (v : Hash32) (ballot : Ballot), maps.voteMap[v]? = some ballot ↔
      ∃ t w, Replay.lastVote blake2b256 revoteWindow v = some (t, w) ∧ w.ballot = ballot ∧
        ∀ t', t < t' → ∀ x ∈ Replay.inputsAt revoteWindow t',
          Replay.ownerAt blake2b256 revoteWindow t' x ≠ some v :=
  voteMap_iff_trace revote_reads.past revote_reads.window_eq

/-! ## The order of different voters' transactions -/

section Order

variable [Blake2b] {blocks blocks' proposalScript proposal : Bytes} {poll : Poll}
  {txs txs' : List WindowTx}

/-- **Order independence.**  Two block vectors of one length with the same
proposal count to the same result when their windows are reorderings of each
other that keep the order of every two transactions touching one voter. -/
theorem countVote_reordering (hfind : findProposal blocks proposalScript = .ok (some proposal))
    (hfind' : findProposal blocks' proposalScript = .ok (some proposal))
    (hpoll : readPoll proposal proposalScript = .ok poll)
    (hlen : itemCount blocks = itemCount blocks') (hwindow : window poll blocks = .ok txs)
    (hwindow' : window poll blocks' = .ok txs') (hone : Replay.OneLock txs)
    (horder : Replay.Reordering blake2b256 txs txs') :
    ∃ result, countVote blocks proposalScript = .ok result ∧
      countVote blocks' proposalScript = .ok result := by
  obtain ⟨maps, htally, hmaps⟩ := voteMap_tally hwindow
  obtain ⟨maps', htally', hmaps'⟩ := voteMap_tally hwindow'
  obtain ⟨count, hcount, -⟩ := bind_eq_ok.mp hwindow
  have hcount' := hlen ▸ hcount
  have hsame : maps.voteMap = maps'.voteMap := by
    apply Std.ExtTreeMap.ext_getElem?
    intro v
    rw [hmaps, hmaps', Replay.standing_reordering hone horder]
  have hverdict :
      verdict proposal poll.minimalReq maps = verdict proposal poll.minimalReq maps' := by
    simp only [verdict, hsame]
  by_cases hpast : count = poll.duration + 1
  · refine ⟨verdict proposal poll.minimalReq maps, ?_, ?_⟩
    · simp only [countVote, hfind, ok_bind, hpoll, hcount, htally]
      simp [hpast]
    · simp only [countVote, hfind', ok_bind, hpoll, hcount', htally', hverdict]
      simp [hpast]
  · refine ⟨⟨proposal, 0, 0, false⟩, ?_, ?_⟩
    · simp only [countVote, hfind, ok_bind, hpoll, hcount]
      simp [hpast]
    · simp only [countVote, hfind', ok_bind, hpoll, hcount']
      simp [hpast]

end Order

namespace Sample

/-- Two voters vote in one block, in either order. -/
def aliceFirst : Bytes := blocksOf [[proposalTx],
  [voteTx 5 [outPoint 7 0] [outPoint 6 0], voteTx 6 [outPoint 7 1] [outPoint 8 0]]]

def bobFirst : Bytes := blocksOf [[proposalTx],
  [voteTx 6 [outPoint 7 1] [outPoint 8 0], voteTx 5 [outPoint 7 0] [outPoint 6 0]]]

def aliceFirstWindow : List WindowTx := [⟨[outPoint 9 0], []⟩,
  voteEntry 5 [outPoint 7 0] [outPoint 6 0], voteEntry 6 [outPoint 7 1] [outPoint 8 0]]

def bobFirstWindow : List WindowTx := [⟨[outPoint 9 0], []⟩,
  voteEntry 6 [outPoint 7 1] [outPoint 8 0], voteEntry 5 [outPoint 7 0] [outPoint 6 0]]

theorem bobFirst_reads : Reads aliceFirst 2 aliceFirstWindow ∧ Reads bobFirst 2 bobFirstWindow ∧
    Replay.OneLock aliceFirstWindow := by
  decide +kernel

/-- The two windows are reorderings of each other. -/
theorem bobFirst_reordering :
    Replay.Reordering blake2b256 aliceFirstWindow bobFirstWindow := by
  refine ⟨(Equiv.swap 1 2 : Fin 3 ≃ Fin 3), by decide +kernel, ?_⟩
  intro v i j hij hi hj
  obtain ⟨e, he, rfl⟩ := Replay.exists_vote_of_touches (List.get_mem _ i) hi
  -- only two voters are left to check
  revert e i j
  decide +kernel

end Sample

open Sample in
theorem countVote_reordering_bobFirst : ∃ result,
    countVote aliceFirst Sample.proposalScript = .ok result ∧
      countVote bobFirst Sample.proposalScript = .ok result := by
  obtain ⟨halice, hbob, hone⟩ := bobFirst_reads
  exact countVote_reordering halice.2.1 hbob.2.1 readPoll_proposal
    (halice.2.2.1.trans hbob.2.2.1.symm) halice.window_eq hbob.window_eq hone bobFirst_reordering

/-! ## Counted votes and their deposits -/

section Deposits

variable [Blake2b] {blocks proposalScript : Bytes} {poll : Poll} {txs : List WindowTx}

/-- No deposit that the vote at transaction `t` names is spent by that
transaction or a later one. -/
def KeepsDeposits (txs : List WindowTx) (t : Nat) (w : CastVote) : Prop :=
  ∀ x ∈ w.named, ∀ t', t ≤ t' → x ∉ Replay.inputsAt txs t'

/-- **Double votes.**  Every voter in the map keeps the deposits of the last
vote, exactly when no last vote has a deposit spent by its own transaction
without the voter losing the entry to a later spend. -/
theorem counted_backed_iff (hpast : PastBlockCheck blocks proposalScript poll)
    (hwindow : window poll blocks = .ok txs) (hone : Replay.OneLock txs) :
    ∃ maps, LoopEnds blocks proposalScript poll maps ∧
      ((∀ (v : Hash32) t w, maps.voteMap[v]? ≠ none →
          Replay.lastVote blake2b256 txs v = some (t, w) → KeepsDeposits txs t w) ↔
        ∀ (v : Hash32) t w, Replay.lastVote blake2b256 txs v = some (t, w) →
          (∃ x ∈ w.named, x ∈ Replay.inputsAt txs t) → Replay.Withdrawn blake2b256 txs v t) := by
  obtain ⟨maps, hends, hmaps⟩ := loopEnds_of_window hpast hwindow
  refine ⟨maps, hends, ?_, ?_⟩
  · intro hbacked v t w hw
    refine (Replay.unspent_of_standing_iff hone hw).mp fun hstand => ?_
    exact hbacked v t w (by rwa [hmaps v]) hw
  · intro hown v t w hstand hw
    rw [hmaps v] at hstand
    exact (Replay.unspent_of_standing_iff hone hw).mpr (hown v t w hw) hstand

/-- **Lost votes.**  Every last vote whose deposits are kept is counted,
exactly when after such a vote no deposit of any vote of its voter is spent. -/
theorem kept_counted_iff (hpast : PastBlockCheck blocks proposalScript poll)
    (hwindow : window poll blocks = .ok txs) (hone : Replay.OneLock txs)
    (honce : Replay.SpentOnce txs) :
    ∃ maps, LoopEnds blocks proposalScript poll maps ∧
      ((∀ (v : Hash32) t w, Replay.lastVote blake2b256 txs v = some (t, w) →
          KeepsDeposits txs t w → maps.voteMap[v]? = some w.ballot) ↔
        ∀ (v : Hash32) t w, Replay.lastVote blake2b256 txs v = some (t, w) →
          KeepsDeposits txs t w → ∀ e ∈ Replay.events txs, blake2b256 e.2.lock = v →
            ∀ x ∈ e.2.named, ∀ t', t < t' → x ∉ Replay.inputsAt txs t') := by
  obtain ⟨maps, hends, hmaps⟩ := loopEnds_of_window hpast hwindow
  refine ⟨maps, hends, ?_, ?_⟩
  · intro hcounted v t w hw hkeeps
    refine (Replay.standing_iff_all_unspent hone honce hw).mp ?_
    rw [← hmaps v]
    exact hcounted v t w hw hkeeps
  · intro hunspent v t w hw hkeeps
    rw [hmaps v]
    exact (Replay.standing_iff_all_unspent hone honce hw).mpr (hunspent v t w hw hkeeps)

end Deposits

namespace Sample

/-- Alice spends the deposit in the transaction that votes with it. -/
def spendingVote : Bytes := blocksOf [[proposalTx], [voteTx 5 [outPoint 6 0] [outPoint 6 0]]]

def spendingVoteWindow : List WindowTx :=
  [⟨[outPoint 9 0], []⟩, voteEntry 5 [outPoint 6 0] [outPoint 6 0]]

/-- Alice's vote stands at the end. -/
theorem spendingVote_trace : Reads spendingVote 2 spendingVoteWindow ∧
    Replay.OneLock spendingVoteWindow ∧
    (Replay.replay blake2b256 spendingVoteWindow).standing alice ≠ none ∧
    Replay.lastVote blake2b256 spendingVoteWindow alice =
      some (1, ⟨lockOf 5, (1, 100), [outPoint 6 0]⟩) := by
  decide +kernel

end Sample

open Sample in
/-- The vote is counted although its own transaction spends its deposit. -/
theorem spendingVote_counted : BlockVecReader.verify false spendingVote = .ok () ∧
    Replay.OneLock spendingVoteWindow ∧ window Sample.poll spendingVote = .ok spendingVoteWindow ∧
    ∃ maps, LoopEnds spendingVote Sample.proposalScript Sample.poll maps ∧
      ¬ ∀ (v : Hash32) t w, maps.voteMap[v]? ≠ none →
        Replay.lastVote blake2b256 spendingVoteWindow v = some (t, w) →
          KeepsDeposits spendingVoteWindow t w := by
  obtain ⟨hreads, hone, hstanding, hlast⟩ := spendingVote_trace
  refine ⟨hreads.1, hone, hreads.window_eq, ?_⟩
  obtain ⟨maps, hends, hmaps⟩ := loopEnds_of_window hreads.past hreads.window_eq
  refine ⟨maps, hends, fun hbacked => ?_⟩
  have hkeeps := hbacked alice 1 _ (by rwa [hmaps]) hlast
  exact hkeeps (outPoint 6 0) (List.mem_singleton_self _) 1 (Nat.le_refl 1)
    (List.mem_singleton_self _)

open Sample in
theorem counted_backed_iff_spendingVote :
    ∃ maps, LoopEnds spendingVote Sample.proposalScript Sample.poll maps ∧
      ((∀ (v : Hash32) t w, maps.voteMap[v]? ≠ none →
          Replay.lastVote blake2b256 spendingVoteWindow v = some (t, w) →
            KeepsDeposits spendingVoteWindow t w) ↔
        ∀ (v : Hash32) t w, Replay.lastVote blake2b256 spendingVoteWindow v = some (t, w) →
          (∃ x ∈ w.named, x ∈ Replay.inputsAt spendingVoteWindow t) →
            Replay.Withdrawn blake2b256 spendingVoteWindow v t) :=
  counted_backed_iff spendingVote_trace.1.past spendingVote_trace.1.window_eq spendingVote_trace.2.1

namespace Sample

/-- Alice has no vote at the end, and the deposit of the last one is not spent. -/
theorem revote_trace : Replay.OneLock revoteWindow ∧ Replay.SpentOnce revoteWindow ∧
    (Replay.replay blake2b256 revoteWindow).standing alice = none ∧
    Replay.lastVote blake2b256 revoteWindow alice =
      some (2, ⟨lockOf 5, (1, 100), [outPoint 6 1]⟩) ∧
    ∀ t' < 4, 2 ≤ t' → outPoint 6 1 ∉ Replay.inputsAt revoteWindow t' := by
  decide +kernel

end Sample

open Sample in
/-- Spending the deposit of a replaced vote drops the current one. -/
theorem revote_lost : BlockVecReader.verify false revote = .ok () ∧
    Replay.OneLock revoteWindow ∧ Replay.SpentOnce revoteWindow ∧
    window Sample.poll revote = .ok revoteWindow ∧
    ∃ maps, LoopEnds revote Sample.proposalScript Sample.poll maps ∧
      ¬ ∀ (v : Hash32) t w, Replay.lastVote blake2b256 revoteWindow v = some (t, w) →
        KeepsDeposits revoteWindow t w → maps.voteMap[v]? = some w.ballot := by
  obtain ⟨hone, honce, hnone, hlast, hunspent⟩ := revote_trace
  refine ⟨revote_reads.1, hone, honce, revote_reads.window_eq, ?_⟩
  obtain ⟨maps, hends, hmaps⟩ := loopEnds_of_window revote_reads.past revote_reads.window_eq
  refine ⟨maps, hends, fun hcounted => ?_⟩
  have hkeeps : KeepsDeposits revoteWindow 2 ⟨lockOf 5, (1, 100), [outPoint 6 1]⟩ := by
    intro x hx t' ht' hspent
    obtain rfl := List.mem_singleton.mp hx
    exact hunspent t' (Replay.lt_length_of_mem_inputsAt hspent) ht' hspent
  have hsome := hcounted alice 2 _ hlast hkeeps
  rw [hmaps, hnone] at hsome
  cases hsome

open Sample in
theorem kept_counted_iff_revote :
    ∃ maps, LoopEnds revote Sample.proposalScript Sample.poll maps ∧
      ((∀ (v : Hash32) t w, Replay.lastVote blake2b256 revoteWindow v = some (t, w) →
          KeepsDeposits revoteWindow t w → maps.voteMap[v]? = some w.ballot) ↔
        ∀ (v : Hash32) t w, Replay.lastVote blake2b256 revoteWindow v = some (t, w) →
          KeepsDeposits revoteWindow t w → ∀ e ∈ Replay.events revoteWindow,
            blake2b256 e.2.lock = v → ∀ x ∈ e.2.named, ∀ t', t < t' →
              x ∉ Replay.inputsAt revoteWindow t') :=
  kept_counted_iff revote_reads.past revote_reads.window_eq revote_trace.1 revote_trace.2.1

end CkbVote
