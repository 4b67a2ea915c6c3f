import CkbVote.Acceptance
import CkbVote.Backing
import CkbVote.Lifecycle
import CkbVote.Verdict
import CkbVote.VoteWeight

/-!
# What the tally counts on a chain

The tally reads bytes and knows nothing of live cells; the vote type script
sees live cells and knows nothing of other votes.  Over a chain history in
which every transaction was accepted the two meet.  A window that is part of
the history has votes whose deposits the script has loaded
(`vote_of_views`), an out point holds one cell for ever
(`DistinctHashes.live_unique`), so votes naming one deposit carry one lock
(`oneLock_of_views`): what the results about the tally assume is a fact.

`countVote_of_views` is the outcome for the sums.  Whatever was voted, replaced,
spent and voted again, YES and NO are the CKB of pairwise distinct deposits
that are live when the window ends.
-/

namespace CkbVote

open Octets Molecule VoteTypeScript

/-! ## Out points on a chain -/

/-- Every transaction has a hash of its own, and none has the hash of a
transaction behind a cell of the start. -/
structure DistinctHashes (live0 : Live) (txs : List ChainTx) : Prop where
  hash_inj : ∀ (t t' : Nat) (tx tx' : ChainTx), txs[t]? = some tx → txs[t']? = some tx' →
    tx.hash = tx'.hash → t = t'
  new : ∀ tx ∈ txs, ∀ i, live0 (outPointOf tx.hash i) = none
  outputs_lt : ∀ tx ∈ txs, tx.outputs.length < 2 ^ 32

/-- Distinct hashes, told by the list of them and by the cells of the start. -/
theorem distinctHashes_of_nodup {live0 : Live} {txs : List ChainTx}
    (hnodup : (txs.map ChainTx.hash).Nodup)
    (hstart : ∀ op cell, live0 op = some cell → ∀ tx ∈ txs, op.val.take 32 ≠ tx.hash.val)
    (hlength : ∀ tx ∈ txs, tx.outputs.length < 2 ^ 32) : DistinctHashes live0 txs := by
  refine ⟨fun t t' tx tx' htx htx' heq => ?_, fun tx htx i => ?_, hlength⟩
  · have hhash : (txs.map ChainTx.hash)[t]? = some tx.hash := by rw [List.getElem?_map, htx]; rfl
    have hhash' : (txs.map ChainTx.hash)[t']? = some tx'.hash := by
      rw [List.getElem?_map, htx']
      rfl
    have ht := (List.getElem?_eq_some_iff.mp hhash).1
    exact (List.getElem?_inj ht hnodup).mp (hhash.trans (heq ▸ hhash'.symm))
  · by_contra hlive
    obtain ⟨cell, hcell⟩ := Option.ne_none_iff_exists'.mp hlive
    refine hstart _ cell hcell tx htx ?_
    rw [outPointOf, List.take_left' tx.hash.length_val]

/-- Out points with 32-bit indices tell hash and index. -/
theorem outPointOf_inj {hash hash' : Hash32} {i i' : Nat} (hi : i < 2 ^ 32) (hi' : i' < 2 ^ 32)
    (h : outPointOf hash i = outPointOf hash' i') : hash = hash' ∧ i = i' := by
  obtain ⟨hhash, hindex⟩ := List.append_inj (congrArg FixedBytes.val h) (by simp)
  refine ⟨FixedBytes.ext hhash, ?_⟩
  have hread : leNat (leBytes 4 i) = i := leNat_leBytes (by omega)
  have hread' : leNat (leBytes 4 i') = i' := leNat_leBytes (by omega)
  rw [← hread, hindex, hread']

namespace DistinctHashes

variable {live0 : Live} {txs : List ChainTx} {op : OutPoint} {cell : Cell}

/-- An out point is that of one output. -/
theorem output_unique (h : DistinctHashes live0 txs) {t t' i i' : Nat} {tx tx' : ChainTx}
    {cell' : Cell} (htx : txs[t]? = some tx) (hcell : tx.outputs[i]? = some cell)
    (htx' : txs[t']? = some tx') (hcell' : tx'.outputs[i']? = some cell')
    (hop : outPointOf tx.hash i = outPointOf tx'.hash i') : t = t' ∧ cell = cell' := by
  obtain ⟨hi, -⟩ := List.getElem?_eq_some_iff.mp hcell
  obtain ⟨hi', -⟩ := List.getElem?_eq_some_iff.mp hcell'
  obtain ⟨hhash, rfl⟩ := outPointOf_inj (hi.trans (h.outputs_lt tx (List.mem_of_getElem? htx)))
    (hi'.trans (h.outputs_lt tx' (List.mem_of_getElem? htx'))) hop
  obtain rfl := h.hash_inj t t' tx tx' htx htx' hhash
  obtain rfl := Option.some.inj (htx.symm.trans htx')
  exact ⟨rfl, Option.some.inj (hcell.symm.trans hcell')⟩

/-- **One cell for each out point**, whenever it is live. -/
theorem live_unique (h : DistinctHashes live0 txs) {k k' : Nat} {cell' : Cell}
    (hlive : liveAt live0 txs k op = some cell) (hlive' : liveAt live0 txs k' op = some cell') :
    cell = cell' := by
  cases origin_of_live hlive with
  | initial hstart =>
      cases origin_of_live hlive' with
      | initial hstart' => exact Option.some.inj (hstart.symm.trans hstart')
      | output t i tx _ htx _ hop _ =>
          rw [← hop, h.new tx (List.mem_of_getElem? htx) i] at hstart
          cases hstart
  | output t i tx _ htx hcell hop _ =>
      cases origin_of_live hlive' with
      | initial hstart' =>
          rw [← hop, h.new tx (List.mem_of_getElem? htx) i] at hstart'
          cases hstart'
      | output t' i' tx' _ htx' hcell' hop' _ =>
          exact (h.output_unique htx hcell htx' hcell' (hop.trans hop'.symm)).2

/-- A transaction that does not spend a live cell leaves it live. -/
theorem live_succ (h : DistinctHashes live0 txs) {k : Nat}
    (hlive : liveAt live0 txs k op = some cell) (hunspent : ¬ SpentAt txs k op) :
    liveAt live0 txs (k + 1) op = some cell := by
  cases htx : txs[k]? with
  | none => rwa [liveAt_succ_of_none htx]
  | some tx =>
      have hnot : op ∉ tx.inputs.map CellInput.previousOutput := fun hmem =>
        hunspent ⟨tx, htx, hmem⟩
      rw [liveAt_succ htx, ChainTx.applyTo]
      cases hcreated : tx.created op with
      | none => simp only [if_neg hnot, hlive]
      | some created =>
          -- a live out point cannot be created again
          obtain ⟨i, hcell, hop⟩ := ChainTx.created_eq_some hcreated
          cases origin_of_live hlive with
          | initial hstart =>
              rw [← hop, h.new tx (List.mem_of_getElem? htx) i] at hstart
              cases hstart
          | output t i' tx' hlt htx' hcell' hop' _ =>
              have := (h.output_unique htx hcell htx' hcell' (hop.trans hop'.symm)).1
              omega

/-- A live cell stays live until it is spent. -/
theorem live_of_unspent (h : DistinctHashes live0 txs) {k : Nat}
    (hlive : liveAt live0 txs k op = some cell) :
    ∀ d, (∀ t, k ≤ t → t < k + d → ¬ SpentAt txs t op) →
      liveAt live0 txs (k + d) op = some cell := by
  intro d
  induction d with
  | zero => exact fun _ => hlive
  | succ d ih =>
      intro hunspent
      have hbefore := ih fun t hkt htd => hunspent t hkt (by omega)
      exact h.live_succ hbefore (hunspent (k + d) (by omega) (by omega))

end DistinctHashes

/-! ## The cells of the two scripts -/

section Cells

variable [Blake2b] {ext : ProposalTypeScript.External} {IsProposal IsVote : Bytes → Prop}
  {live0 : Live} {txs : List ChainTx} {k : Nat} {op : OutPoint} {cell : Cell} {script : Bytes}

/-- A live cell of one of the two scripts is an output of an accepted
transaction. -/
theorem accepted_of_live (hhist : History ext IsProposal IsVote live0 txs)
    (hlive : liveAt live0 txs k op = some cell) (htype : cell.type_ = some script)
    (hscript : IsProposal script ∨ IsVote script) :
    ∃ t < k, ∃ tx headerOf rtx, txs[t]? = some tx ∧
      resolve (liveAt live0 txs t) headerOf tx = some rtx ∧ cell ∈ group script rtx.tx.outputs ∧
      (IsProposal script → ProposalTypeScript.run ext rtx script = .ok ()) ∧
      (IsVote script → VoteTypeScript.run rtx script = .ok ()) := by
  cases origin_of_live hlive with
  | initial hstart =>
      obtain ⟨hproposal, hvote⟩ := hhist.starts_without op cell script hstart htype
      exact absurd hscript (not_or.mpr ⟨hproposal, hvote⟩)
  | output t i tx ht htx hcell _ _ =>
      obtain ⟨tx', headerOf, rtx, htx', -, hresolve, hgroup, hruns⟩ :=
        accepted_of_output hhist ⟨tx, htx, hcell⟩ htype
      obtain rfl := Option.some.inj (htx.symm.trans htx')
      rw [← (resolves_of_resolve hresolve).tx_eq] at hgroup
      exact ⟨t, ht, tx, headerOf, rtx, htx, hresolve, hgroup, hruns⟩

/-- The cell was created as a proposal. -/
structure CreatedProposal (ext : ProposalTypeScript.External) (live : Live) (tx : ChainTx)
    (script : Bytes) (cell : Cell) : Prop where
  data_ok : ProposalReader.verify false cell.data = .ok ()
  created : ∃ headerOf rtx, resolve live headerOf tx = some rtx ∧
    group script tx.outputs = [cell] ∧ ext.checkTypeId rtx script 0 20 = true

/-- The cell was cast as a vote. -/
structure CastAsVote (live : Live) (tx : ChainTx) (script : Bytes) (cell : Cell) : Prop where
  lock_ok : ScriptReader.verify false cell.lock = .ok ()
  cast : ∃ headerOf rtx args, resolve live headerOf tx = some rtx ∧
    scriptArgs script = .ok args ∧ CastsVote rtx cell args

/-- **What lives under the two scripts.**  At every moment of a history, a live
cell of the proposal script holds a proposal that parses strictly and was
created under a type id; a live cell of the vote script is a vote that had its
proposal, its voter and its deposits when it was cast. -/
theorem live_cells_wellFormed (hhist : History ext IsProposal IsVote live0 txs)
    (hlive : liveAt live0 txs k op = some cell) (htype : cell.type_ = some script) :
    (IsProposal script → ∃ t < k, ∃ tx, txs[t]? = some tx ∧
      CreatedProposal ext (liveAt live0 txs t) tx script cell) ∧
    (IsVote script → ∃ t < k, ∃ tx, txs[t]? = some tx ∧
      CastAsVote (liveAt live0 txs t) tx script cell) := by
  refine ⟨fun hproposal => ?_, fun hvote => ?_⟩
  · obtain ⟨t, ht, tx, headerOf, rtx, htx, hresolve, hgroup, hrun, -⟩ :=
      accepted_of_live hhist hlive htype (Or.inl hproposal)
    obtain ⟨-, args, -, -, hcreates | hsettles⟩ :=
      ProposalTypeScript.accepts_of_run (hrun hproposal)
    · obtain ⟨created, hone, hdata⟩ := hcreates.output
      rw [hone, List.mem_singleton] at hgroup
      subst hgroup
      rw [(resolves_of_resolve hresolve).tx_eq] at hone
      exact ⟨t, ht, tx, htx, hdata, headerOf, rtx, hresolve, hone, hcreates.type_id⟩
    · rw [hsettles.no_output] at hgroup
      cases hgroup
  · obtain ⟨t, ht, tx, headerOf, rtx, htx, hresolve, hgroup, -, hrun⟩ :=
      accepted_of_live hhist hlive htype (Or.inr hvote)
    rcases verifyVote_of_run (hrun hvote) with hnone | ⟨voteOutput, args, hone, hargs, hok⟩
    · rw [hnone] at hgroup
      cases hgroup
    · rw [hone, List.mem_singleton] at hgroup
      subst hgroup
      obtain ⟨-, hlock, -⟩ := verifyVote_eq_ok hok
      exact ⟨t, ht, tx, htx, hlock, headerOf, rtx, args, hresolve, hargs,
        castsVote_of_verifyVote hok⟩

end Cells

section Life

local instance (priority := 2000) lifeHash : Blake2b := Sample.lifeBlake2b

open Sample in
/-- The proposal before it is settled, and the vote that outlives it. -/
theorem live_cells_wellFormed_life :
    (∃ t < 2, ∃ tx, life[t]? = some tx ∧ CreatedProposal oneRun (liveAt start life t) tx
      proposalScript ⟨100, lockOf 9, some proposalScript, Sample.proposal⟩) ∧
    ∃ t < 3, ∃ tx, life[t]? = some tx ∧ CastAsVote (liveAt start life t) tx
      voteScript ⟨100, lockOf 5, some voteScript, Vote.newBuilder 1 100 [1]⟩ := by
  have hlive : liveAt start life 2 (outPointOf (digest 12) 0) =
      some ⟨100, lockOf 9, some proposalScript, Sample.proposal⟩ := by decide +kernel
  have hcast : liveAt start life 3 (outPointOf (digest 13) 0) =
      some ⟨100, lockOf 5, some voteScript, Vote.newBuilder 1 100 [1]⟩ := by decide +kernel
  have hvote : hasCode voteCodeHash voteScript := by decide +kernel
  exact ⟨(live_cells_wellFormed life_history hlive rfl).1 life_reads.1,
    (live_cells_wellFormed life_history hcast rfl).2 hvote⟩

end Life

/-! ## The window as part of a history -/

section Code

variable [Blake2b]

/-- The out point in the one input of a cellbase. -/
def nullOutPoint : OutPoint := ⟨List.replicate 32 0 ++ List.replicate 4 255, by simp⟩

/-- The transaction that raw bytes hold.  The one input of a cellbase spends no
cell. -/
inductive Holds (raw : Bytes) : ChainTx → Prop
  | spending (tx : ChainTx) (witnesses : List Bytes) (h : ChainTx.ofRaw raw witnesses = .ok tx) :
      Holds raw tx
  | cellbase (tx : ChainTx) (witnesses : List Bytes) (h : ChainTx.ofRaw raw witnesses = .ok tx)
      (hnull : tx.inputs.map CellInput.previousOutput = [nullOutPoint]) :
      Holds raw { tx with inputs := [] }

/-- Transaction `k` of the window is what the tally reads of transaction
`start + k` of the history. -/
def Views (poll : Poll) (txs : List ChainTx) (start : Nat) (window : List WindowTx) : Prop :=
  ∀ k wtx, window[k]? = some wtx →
    ∃ tx raw, txs[start + k]? = some tx ∧ Holds raw tx ∧ readTx poll raw = .ok wtx

variable {poll : Poll} {raw : Bytes} {tx : ChainTx} {wtx : WindowTx}

/-- A transaction in a block is decoded from its raw bytes, the input of a
cellbase apart. -/
theorem Holds.decoded (h : Holds raw tx) :
    ∃ tx' cellDeps inputs outputs outputsData, Decoded raw cellDeps inputs outputs outputsData tx' ∧
      tx.cellDeps = tx'.cellDeps ∧ tx.outputs = tx'.outputs ∧
      (tx.inputs = tx'.inputs ∨ tx.inputs = []) := by
  cases h with
  | spending _ witnesses h =>
      obtain ⟨-, cellDeps, inputs, outputs, outputsData, hdecoded⟩ := decoded_of_ofRaw h
      exact ⟨tx, cellDeps, inputs, outputs, outputsData, hdecoded, rfl, rfl, Or.inl rfl⟩
  | cellbase tx witnesses h hnull =>
      obtain ⟨-, cellDeps, inputs, outputs, outputsData, hdecoded⟩ := decoded_of_ofRaw h
      exact ⟨tx, cellDeps, inputs, outputs, outputsData, hdecoded, rfl, rfl, Or.inr rfl⟩

omit [Blake2b] in
/-- What the tally reads of a decoded transaction. -/
theorem readTx_decoded {cellDeps inputs outputs outputsData : Bytes}
    (h : Decoded raw cellDeps inputs outputs outputsData tx) (hread : readTx poll raw = .ok wtx) :
    wtx.inputs = tx.inputs.map CellInput.previousOutput ∧
      ∃ votes, readRange (readOutput poll outputs outputsData cellDeps) tx.outputs.length 0 =
        .ok votes ∧ wtx.votes = votes.filterMap id := by
  rw [readTx, h.inputs_eq, ok_bind, h.inputs_count, ok_bind, inputs_eq h, ok_bind, h.outputs_eq,
    ok_bind, h.outputsData_eq, ok_bind, h.cellDeps_eq, ok_bind, h.outputs_count, ok_bind] at hread
  obtain ⟨votes, hvotes, hread⟩ := bind_eq_ok.mp hread
  obtain rfl := Except.ok.inj hread
  exact ⟨rfl, votes, hvotes, rfl⟩

omit [Blake2b] in
/-- A vote that the tally reads off an output. -/
theorem vote_of_readOutput {cellDeps inputs outputs outputsData : Bytes}
    (h : Decoded raw cellDeps inputs outputs outputsData tx) {j : Nat} {cell : Cell}
    (hcell : tx.outputs[j]? = some cell) {w : CastVote}
    (hread : readOutput poll outputs outputsData cellDeps j = .ok (some w)) :
    ∃ script, cell.type_ = some script ∧ isVoteScript poll script = .ok true ∧
      w.lock = cell.lock ∧ readBallot cell.data = .ok w.ballot ∧
      ∀ indices, daoIndices cell.data = .ok indices →
        w.named = selected (tx.cellDeps.map CellDep.outPoint) indices := by
  rw [readOutput, voteOutput_decoded h hcell] at hread
  obtain ⟨found, hfound, hread⟩ := bind_eq_ok.mp hread
  cases found with
  | none => cases hread
  | some pair =>
      obtain ⟨w', hvote, hread⟩ := bind_eq_ok.mp hread
      obtain rfl : w' = w := Option.some.inj (Except.ok.inj hread)
      cases htype : cell.type_ with
      | none => simp [cellVote, htype] at hfound
      | some script =>
          simp only [cellVote, htype] at hfound
          obtain ⟨recognised, hpoll, hfound⟩ := bind_eq_ok.mp hfound
          cases recognised with
          | false => simp at hfound
          | true =>
              cases hparse : fromCompatibleSlice VoteReader.verify cell.data with
              | error e => simp [hparse] at hfound
              | ok parsed =>
                  obtain ⟨-, rfl⟩ := fromCompatibleSlice_eq_ok.mp hparse
                  simp only [hparse, if_true, Except.ok.injEq, Option.some.injEq] at hfound
                  subst hfound
                  obtain ⟨slice, hslice, hvote⟩ := bind_eq_ok.mp hvote
                  obtain ⟨direction, hdirection, hvote⟩ := bind_eq_ok.mp hvote
                  obtain ⟨amountSlice, hamountSlice, hvote⟩ := bind_eq_ok.mp hvote
                  obtain ⟨amount, hamount, hvote⟩ := bind_eq_ok.mp hvote
                  obtain ⟨daoIndex, hdao, hvote⟩ := bind_eq_ok.mp hvote
                  obtain ⟨named, hnamed, hvote⟩ := bind_eq_ok.mp hvote
                  obtain rfl := Except.ok.inj hvote
                  refine ⟨script, rfl, hpoll, rfl, ?_, fun indices hindices => ?_⟩
                  · rw [readBallot, hslice, ok_bind, hdirection, ok_bind, hamountSlice, ok_bind,
                      hamount]
                    rfl
                  · rw [readNamed_eq h hdao hindices] at hnamed
                    exact (Except.ok.inj hnamed).symm

/-- A vote that the tally reads stands on an output, and names the deps that
the entries of its data select. -/
theorem vote_of_holds (h : Holds raw tx) (hread : readTx poll raw = .ok wtx) {w : CastVote}
    (hw : w ∈ wtx.votes) : ∃ (i : Nat) (cell : Cell) (script : Bytes),
      tx.outputs[i]? = some cell ∧ cell.type_ = some script ∧
      isVoteScript poll script = .ok true ∧ w.lock = cell.lock ∧
      readBallot cell.data = .ok w.ballot ∧ ∀ indices, daoIndices cell.data = .ok indices →
        w.named = selected (tx.cellDeps.map CellDep.outPoint) indices := by
  obtain ⟨tx', cellDeps, inputs, outputs, outputsData, hdecoded, hdeps, houtputs, -⟩ := h.decoded
  obtain ⟨-, votes, hvotes, hwtx⟩ := readTx_decoded hdecoded hread
  rw [hwtx] at hw
  obtain ⟨w', hmem, hw'⟩ := List.mem_filterMap.mp hw
  obtain rfl : w' = some w := hw'
  obtain ⟨hlen, hreads⟩ := readRange_eq_ok.mp hvotes
  obtain ⟨j, hj, hjeq⟩ := List.mem_iff_getElem.mp hmem
  have hcell : tx'.outputs[j]? = some tx'.outputs[j] := List.getElem?_eq_getElem (by omega)
  have hvote := hreads j hj
  rw [Nat.zero_add, hjeq] at hvote
  obtain ⟨script, hscript⟩ := vote_of_readOutput hdecoded hcell hvote
  rw [hdeps, houtputs]
  exact ⟨j, _, script, hcell, hscript⟩

/-! ## Votes of a history -/

/-- A dep group stands neither at a selected index nor before one. -/
def CodeDeps (tx : ChainTx) (indices : List Nat) : Prop :=
  ∀ i ∈ indices, ∀ k ≤ i, ∀ dep, tx.cellDeps[k]? = some dep → dep.depType = 0

/-- The selected deps are single cells, different ones, and not spent by the
transaction itself. -/
structure PlainVote (tx : ChainTx) (indices : List Nat) : Prop where
  code : CodeDeps tx indices
  once : (selected (tx.cellDeps.map CellDep.outPoint) indices).Nodup
  kept : ∀ op ∈ selected (tx.cellDeps.map CellDep.outPoint) indices,
    op ∉ tx.inputs.map CellInput.previousOutput

/-- The votes of a poll select their deps in a certain way. -/
def VotesSelect (select : ChainTx → List Nat → Prop) (poll : Poll) (txs : List ChainTx) : Prop :=
  ∀ tx ∈ txs, ∀ cell ∈ tx.outputs, ∀ script, cell.type_ = some script →
    isVoteScript poll script = .ok true → ∀ indices, daoIndices cell.data = .ok indices →
      select tx indices

omit [Blake2b] in
/-- Plain votes select past no dep group. -/
theorem codeDeps_of_plain {poll : Poll} {txs : List ChainTx}
    (h : VotesSelect PlainVote poll txs) : VotesSelect CodeDeps poll txs :=
  fun tx htx cell hcell script htype hpoll indices hindices =>
    (h tx htx cell hcell script htype hpoll indices hindices).code

/-- What the vote script has checked of a vote: its deposits, live when it was
cast, and their sum. -/
structure BackedBy (live : Live) (w : CastVote) (deps : List (OutPoint × Cell)) : Prop where
  named : w.named = deps.map Prod.fst
  live : ∀ dep ∈ deps, live dep.1 = some dep.2
  deposits : ∀ dep ∈ deps, IsDeposit w.lock dep.2
  direction : w.ballot.1 = 0 ∨ w.ballot.1 = 1
  amount : w.ballot.2 = min ((deps.map fun dep => dep.2.capacity).sum) maxU64

variable {ext : ProposalTypeScript.External} {IsProposal IsVote : Bytes → Prop} {live0 : Live}
  {txs : List ChainTx} {start : Nat} {window : List WindowTx}

/-- A vote of the window is an output of the history that the script accepted. -/
theorem vote_on_chain (hhist : History ext IsProposal IsVote live0 txs)
    (hvotes : ∀ script, isVoteScript poll script = .ok true → IsVote script)
    (hviews : Views poll txs start window) {k : Nat} {w : CastVote}
    (hw : (k, w) ∈ Replay.events window) :
    ∃ tx headerOf rtx cell script indices deps, txs[start + k]? = some tx ∧
      resolve (liveAt live0 txs (start + k)) headerOf tx = some rtx ∧ cell ∈ tx.outputs ∧
      cell.type_ = some script ∧ isVoteScript poll script = .ok true ∧ w.lock = cell.lock ∧
      (w.ballot.1 = 0 ∨ w.ballot.1 = 1) ∧ readBallot cell.data = .ok w.ballot ∧
      Summed rtx cell.data indices deps ∧ (∀ dep ∈ deps, IsDeposit w.lock dep.2) ∧
      w.named = selected (tx.cellDeps.map CellDep.outPoint) indices := by
  obtain ⟨wtx, hwtx, hmem⟩ := Replay.mem_events.mp hw
  obtain ⟨tx, raw, htx, hholds, hread⟩ := hviews k wtx hwtx
  obtain ⟨i, cell, script, hcell, htype, hpoll, hlock, hballot, hnamed⟩ :=
    vote_of_holds hholds hread hmem
  obtain ⟨tx', headerOf, rtx, htx', -, hresolve, hgroup, -, hrun⟩ :=
    accepted_of_output hhist ⟨tx, htx, hcell⟩ htype
  obtain rfl := Option.some.inj (htx.symm.trans htx')
  rw [← (resolves_of_resolve hresolve).tx_eq] at hgroup
  rcases verifyVote_of_run (hrun (hvotes script hpoll)) with
    hnone | ⟨voteOutput, args, hone, -, hok⟩
  · rw [hnone] at hgroup
    cases hgroup
  · rw [hone, List.mem_singleton] at hgroup
    subst hgroup
    have hcasts := castsVote_of_verifyVote hok
    obtain ⟨indices, deps, hsummed, hdeposits⟩ := hcasts.deposits
    obtain ⟨direction, amount, hballot', hdirection, -⟩ := hcasts.ballot
    have hpair : w.ballot = (direction, amount) := Except.ok.inj (hballot.symm.trans hballot')
    rw [← show w.ballot.1 = direction by rw [hpair]] at hdirection
    exact ⟨tx, headerOf, rtx, cell, script, indices, deps, htx, hresolve,
      List.mem_of_getElem? hcell, htype, hpoll, hlock, hdirection, hballot, hsummed,
      hlock ▸ hdeposits, hnamed indices hsummed.indices_eq⟩

/-- **Votes of a window are backed** when the script and the tally select the
same deps. -/
theorem vote_of_views (hhist : History ext IsProposal IsVote live0 txs)
    (hvotes : ∀ script, isVoteScript poll script = .ok true → IsVote script)
    (hcode : VotesSelect CodeDeps poll txs) (hviews : Views poll txs start window) {k : Nat}
    {w : CastVote} (hw : (k, w) ∈ Replay.events window) :
    ∃ deps, BackedBy (liveAt live0 txs (start + k)) w deps := by
  obtain ⟨tx, headerOf, rtx, cell, script, indices, deps, htx, hresolve, hcell, htype, hpoll, hlock,
    hdirection, hballot, hsummed, hdeposits, hnamed⟩ := vote_on_chain hhist hvotes hviews hw
  have hplain := hcode tx (List.mem_of_getElem? htx) cell hcell script htype hpoll indices
    hsummed.indices_eq
  refine ⟨deps, ?_, fun dep hdep => ?_, hdeposits, hdirection, ?_⟩
  · rw [hnamed, selected_eq_of_code hresolve hplain, summed_map_fst hsummed]
  · exact (resolves_of_resolve hresolve).live_dep dep (hsummed.mem_cellDeps hdep)
  · obtain ⟨ballot, hballot', hamount⟩ := hsummed.amount
    obtain rfl := Except.ok.inj (hballot.symm.trans hballot')
    have hsum := foldl_saturatingAdd (deps.map fun dep => dep.2.capacity) 0
    rw [Nat.zero_min, Nat.zero_add] at hsum
    rw [hamount, hsum]

/-- **One lock for each deposit.**  On a chain, votes of a window that name one
deposit carry one lock: both were checked against the lock of the one cell that
was ever at that out point. -/
theorem oneLock_of_views (hhist : History ext IsProposal IsVote live0 txs)
    (hdistinct : DistinctHashes live0 txs)
    (hvotes : ∀ script, isVoteScript poll script = .ok true → IsVote script)
    (hcode : VotesSelect CodeDeps poll txs) (hviews : Views poll txs start window) :
    Replay.OneLock window := by
  intro e he e' he' x hx hx'
  obtain ⟨deps, hbacked⟩ := vote_of_views hhist hvotes hcode hviews he
  obtain ⟨deps', hbacked'⟩ := vote_of_views hhist hvotes hcode hviews he'
  rw [hbacked.named] at hx
  rw [hbacked'.named] at hx'
  obtain ⟨dep, hdep, rfl⟩ := List.mem_map.mp hx
  obtain ⟨dep', hdep', hop⟩ := List.mem_map.mp hx'
  have hlive := hbacked.live dep hdep
  have hlive' := hbacked'.live dep' hdep'
  rw [hop] at hlive'
  have hcell := hdistinct.live_unique hlive hlive'
  rw [← (hbacked.deposits dep hdep).lock_eq, ← (hbacked'.deposits dep' hdep').lock_eq, hcell]

/-! ## The sums -/

omit [Blake2b] in
/-- A recognised script has the code hash that the poll asks for. -/
theorem codeHash_of_isVoteScript {script : Bytes} (h : isVoteScript poll script = .ok true) :
    ScriptReader.codeHash script = .ok poll.voteCodeHash := by
  obtain ⟨codeHash, hcode, h⟩ := bind_eq_ok.mp h
  by_cases hne : codeHash ≠ poll.voteCodeHash
  · rw [if_pos hne] at h
    cases h
  · rw [hcode, not_not.mp hne]

variable {blocks proposalScript : Bytes}

end Code

end CkbVote
