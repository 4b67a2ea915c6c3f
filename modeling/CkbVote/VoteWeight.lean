import Mathlib.Data.List.Dedup
import CkbVote.VoteAgreement

/-!
# The weight of a vote

An accepted vote carries an amount.  The vote type script computes it entry by
entry over `dao_index`, in saturating arithmetic, and never compares two
entries.  `vote_weight_iff` states when the amount is the CKB of a set of
deposits: an entry may be repeated, or two entries may resolve to one out point
through a dep group, and then the deposit weighs twice.
-/

namespace CkbVote

open Octets Molecule VoteTypeScript

/-! ## Sums with and without repetitions -/

section Sums

variable {α : Type} [DecidableEq α] (weight : α → Nat)

/-- Leaving out repetitions does not add weight. -/
theorem sum_dedup_le (l : List α) : (l.dedup.map weight).sum ≤ (l.map weight).sum := by
  induction l with
  | nil => simp
  | cons a l ih =>
      by_cases hmem : a ∈ l
      · rw [List.dedup_cons_of_mem hmem, List.map_cons, List.sum_cons]
        omega
      · rw [List.dedup_cons_of_notMem hmem, List.map_cons, List.map_cons, List.sum_cons,
          List.sum_cons]
        omega

/-- Repetitions do not show in a sum exactly when only entries without weight
are repeated. -/
theorem sum_eq_sum_dedup_iff (l : List α) : (l.map weight).sum = (l.dedup.map weight).sum ↔
    (l.filter fun a => weight a ≠ 0).Nodup := by
  induction l with
  | nil => simp
  | cons a l ih =>
      have hle := sum_dedup_le weight l
      by_cases hmem : a ∈ l
      · rw [List.dedup_cons_of_mem hmem, List.map_cons, List.sum_cons]
        by_cases hzero : weight a = 0
        · simp [hzero, ih]
        · have hrest : a ∈ l.filter fun b => weight b ≠ 0 := by simp [hmem, hzero]
          rw [List.filter_cons_of_pos (by simp [hzero]), List.nodup_cons]
          constructor
          · intro h
            omega
          · exact fun h => absurd hrest h.1
      · rw [List.dedup_cons_of_notMem hmem, List.map_cons, List.map_cons, List.sum_cons,
          List.sum_cons, Nat.add_left_cancel_iff, ih]
        by_cases hzero : weight a = 0
        · simp [hzero]
        · rw [List.filter_cons_of_pos (by simp [hzero]), List.nodup_cons]
          simp [hmem]

end Sums

/-! ## The deposits behind an amount -/

/-- The capacity of the live cell at an out point. -/
def capacityAt (live : Live) (op : OutPoint) : Nat := (live op).elim 0 Cell.capacity

/-- The amount is the CKB in the deposits named: there is one, all of them are
deposits of the lock's owner, and the sum over the entries, the exact sum over
the distinct out points and the amount are one number. -/
structure RealWeight (live : Live) (voteLock : Bytes) (named : List OutPoint) (amount : Nat) :
    Prop where
  nonempty : named ≠ []
  deposits : ∀ op ∈ named, ∃ cell, live op = some cell ∧ IsDeposit voteLock cell
  exact : amount = (named.dedup.map (capacityAt live)).sum
  once : (named.map (capacityAt live)).sum = (named.dedup.map (capacityAt live)).sum

section Code

variable [Blake2b]

/-- What an accepted run has summed. -/
theorem summed_of_run {rtx : ResolvedTx} {script : Bytes} {voteOutput : Cell}
    (hrun : run rtx script = .ok ()) (hgroup : group script rtx.tx.outputs = [voteOutput]) :
    ∃ indices deps, Summed rtx voteOutput.data indices deps ∧ deps ≠ [] ∧
      ∀ dep ∈ deps, IsDeposit voteOutput.lock dep.2 := by
  rcases verifyVote_of_run hrun with hnone | ⟨found, args, hfound, -, hchecked⟩
  · rw [hnone] at hgroup
    cases hgroup
  · rw [hfound, List.singleton_inj] at hgroup
    subst hgroup
    exact (verifyVote_eq_ok hchecked).2.2.2

/-- **Vote weight.**  The amount of an accepted vote is the CKB of the distinct
deposits it names exactly when no entry of `dao_index` repeats a deposit with
capacity and the deposits hold less than `2 ^ 64` shannon. -/
theorem vote_weight_iff {live : Live} {headerOf : Hash32 → Option Bytes} {tx : ChainTx}
    {rtx : ResolvedTx} {script : Bytes} {voteOutput : Cell}
    (hresolve : resolve live headerOf tx = some rtx) (hrun : run rtx script = .ok ())
    (hgroup : group script rtx.tx.outputs = [voteOutput]) :
    ∃ indices ballot, daoIndices voteOutput.data = .ok indices ∧
      readBallot voteOutput.data = .ok ballot ∧
      (RealWeight live voteOutput.lock (selected (rtx.cellDeps.map Prod.fst) indices) ballot.2 ↔
        ((selected (rtx.cellDeps.map Prod.fst) indices).filter
            fun op => capacityAt live op ≠ 0).Nodup ∧
          ((selected (rtx.cellDeps.map Prod.fst) indices).dedup.map (capacityAt live)).sum <
            2 ^ 64) := by
  obtain ⟨indices, deps, hsummed, hne, hdeposits⟩ := summed_of_run hrun hgroup
  obtain ⟨ballot, hballot, hamount⟩ := hsummed.amount
  refine ⟨indices, ballot, hsummed.indices_eq, hballot, ?_⟩
  have hlive : ∀ dep ∈ deps, live dep.1 = some dep.2 := by
    intro dep hdep
    have hmem : some dep ∈ indices.map fun i => rtx.cellDeps[i]? := by
      rw [hsummed.deps_eq]
      exact List.mem_map_of_mem hdep
    obtain ⟨i, -, hi⟩ := List.mem_map.mp hmem
    exact (resolves_of_resolve hresolve).live_dep dep (List.mem_of_getElem? hi)
  rw [← summed_map_fst hsummed]
  have hcaps : (deps.map Prod.fst).map (capacityAt live) = deps.map fun dep => dep.2.capacity := by
    rw [List.map_map]
    refine List.map_congr_left fun dep hdep => ?_
    simp [capacityAt, hlive dep hdep]
  have hcut : ballot.2 = min ((deps.map Prod.fst).map (capacityAt live)).sum maxU64 := by
    have hfold := foldl_saturatingAdd (deps.map fun dep => dep.2.capacity) 0
    rw [Nat.zero_min, Nat.zero_add] at hfold
    rw [hamount, hcaps, hfold]
  rw [← sum_eq_sum_dedup_iff]
  constructor
  · intro h
    refine ⟨h.once, ?_⟩
    have hexact := h.exact
    rw [hcut] at hexact
    simp only [maxU64] at hexact
    omega
  · intro h
    obtain ⟨honce, hlt⟩ := h
    refine ⟨by simpa using hne, fun op hop => ?_, ?_, honce⟩
    · obtain ⟨dep, hdep, rfl⟩ := List.mem_map.mp hop
      exact ⟨dep.2, hlive dep hdep, hdeposits dep hdep⟩
    · rw [hcut, honce, maxU64]
      omega

end Code

namespace Sample

/-- Alice names her one deposit twice and claims twice its capacity. -/
def doubleVoteCell : Cell := ⟨100, lockOf 5, some voteScript, Vote.newBuilder 1 200 [1, 1]⟩

def doubleVoteTx : ChainTx :=
  ⟨digest 0x2b6a2641c43f3d620581c83864e28e8b7d35007b52b684714ae19e1c0bb2de6d,
    [⟨outPoint 11 0, 0⟩, ⟨outPoint 6 0, 0⟩], [], [voteInput], [doubleVoteCell], []⟩

scoped instance weightBlake2b : Blake2b := tableBlake2b (scriptDigests ++
  [(voteScript, 0x0930f26aa4842db41b70c420e484518100590a309c1189039c0cc598d8af8cf2)])

/-- The script accepts the double vote as it accepts a vote with one entry. -/
theorem doubleVote_reads :
    (resolve live (fun _ => none) doubleVoteTx = some (resolvedVote doubleVoteTx) ∧
      VoteTypeScript.run (resolvedVote doubleVoteTx) voteScript = .ok () ∧
      group voteScript doubleVoteTx.outputs = [doubleVoteCell] ∧
      daoIndices doubleVoteCell.data = .ok [1, 1] ∧
      readBallot doubleVoteCell.data = .ok (1, 200) ∧
      selected ((resolvedVote doubleVoteTx).cellDeps.map Prod.fst) [1, 1] =
        [outPoint 6 0, outPoint 6 0] ∧
      (([outPoint 6 0, outPoint 6 0].dedup).map (capacityAt live)).sum = 100) ∧
    resolve live (fun _ => none) codeVoteTx = some (resolvedVote codeVoteTx) ∧
    VoteTypeScript.run (resolvedVote codeVoteTx) voteScript = .ok () ∧
    group voteScript codeVoteTx.outputs = [voteCell] := by
  decide +kernel

end Sample

open Sample in
/-- One deposit of 100 shannon backs an accepted vote of 200. -/
theorem doubleVote_weighs_twice :
    resolve live (fun _ => none) doubleVoteTx = some (resolvedVote doubleVoteTx) ∧
    VoteTypeScript.run (resolvedVote doubleVoteTx) voteScript = .ok () ∧
    group voteScript doubleVoteTx.outputs = [doubleVoteCell] ∧
    daoIndices doubleVoteCell.data = .ok [1, 1] ∧ readBallot doubleVoteCell.data = .ok (1, 200) ∧
    ¬ RealWeight live doubleVoteCell.lock
      (selected ((resolvedVote doubleVoteTx).cellDeps.map Prod.fst) [1, 1]) 200 := by
  obtain ⟨⟨hresolve, hrun, hgroup, hindices, hballot, hselected, hsum⟩, -⟩ := doubleVote_reads
  refine ⟨hresolve, hrun, hgroup, hindices, hballot, fun hreal => ?_⟩
  have hexact := hreal.exact
  rw [hselected, hsum] at hexact
  exact absurd hexact (by decide)

open Sample in
theorem vote_weight_iff_codeVote :
    ∃ indices ballot, daoIndices voteCell.data = .ok indices ∧
      readBallot voteCell.data = .ok ballot ∧
      (RealWeight live voteCell.lock
          (selected ((resolvedVote codeVoteTx).cellDeps.map Prod.fst) indices) ballot.2 ↔
        ((selected ((resolvedVote codeVoteTx).cellDeps.map Prod.fst) indices).filter
            fun op => capacityAt live op ≠ 0).Nodup ∧
          ((selected ((resolvedVote codeVoteTx).cellDeps.map Prod.fst) indices).dedup.map
            (capacityAt live)).sum < 2 ^ 64) := by
  obtain ⟨-, hresolve, hrun, hgroup⟩ := doubleVote_reads
  exact vote_weight_iff hresolve hrun hgroup

end CkbVote
