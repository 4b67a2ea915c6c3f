import CkbVote.Cells

/-!
# The vote type script

The on-chain script of a vote cell.  A run without a group output is the
consumption of vote cells and always allowed; a run with one is the casting of
a vote.  `run_eq_ok` collects what an accepted vote has: a cell dep with the
proposal, an input under the voter's lock, vote data that parses strictly, and
DAO deposits among the expanded cell deps whose capacities add up to the
amount.
-/

namespace CkbVote

open Octets Molecule

/-- The args of a script, as a byte string. -/
def scriptArgs (script : Bytes) : Run Bytes := do
  let args ← ScriptReader.args script
  rawData args

namespace VoteTypeScript

inductive Error
  | argsInvalid
  | proposalNotFound
  | voterLockNotFound
  | voteDataInvalid
  | daoDepInvalid
  | amountMismatch
  | multipleVoteOutputs
deriving DecidableEq, Repr

/-- The Nervos DAO type script. -/
def daoCodeHash : Bytes := [
  0x82, 0xd7, 0x6d, 0x1b, 0x75, 0xfe, 0x2f, 0xd9, 0xa2, 0x7d, 0xfb, 0xaa, 0x65, 0xa0, 0x39, 0x22,
  0x1a, 0x38, 0x0d, 0x76, 0xc9, 0x26, 0xf3, 0x78, 0xd3, 0xf8, 0x1c, 0xf3, 0xe7, 0xe1, 0x3f, 0x2e]

def daoHashType : UInt8 := 0x01

/-- The cell dep at an index as a DAO deposit of the voter: its capacity. -/
def daoCapacity (cellDeps : List Cell) (voteLock : Bytes) (depIdx : Nat) :
    ScriptRun Error Nat := do
  let depLock ← orExit .daoDepInvalid (loadAt cellDeps depIdx Cell.loadLock)
  match ← orExit .daoDepInvalid (loadAt cellDeps depIdx Cell.loadType) with
  | none => .error (.exit .daoDepInvalid)
  | some depType =>
      if depLock ≠ voteLock then .error (.exit .daoDepInvalid)
      else if (← orPanic (ScriptReader.codeHash depType)) ≠ daoCodeHash then
        .error (.exit .daoDepInvalid)
      else if (← orPanic (ScriptReader.hashType depType >>= firstByte)) ≠ daoHashType then
        .error (.exit .daoDepInvalid)
      else if (← orPanic (scriptArgs depType)) ≠ [] then .error (.exit .daoDepInvalid)
      else orExit .daoDepInvalid (loadAt cellDeps depIdx Cell.loadCapacity)

/-- Entry `k` of `dao_index`. -/
def daoIndexEntry (daoIndex : Bytes) (k : Nat) : Run Nat := do
  let entry ← FixVec.getUnchecked 2 daoIndex k
  fromLeBytes 2 "called `Result::unwrap()` on an `Err` value" entry

/-- One turn of the loop over `dao_index`: the number of deposits and the sum of
their capacities. -/
def sumStep (cellDeps : List Cell) (voteLock daoIndex : Bytes) (k : Nat) (sums : Nat × Nat) :
    ScriptRun Error (Nat × Nat) := do
  let depIdx ← orPanic (daoIndexEntry daoIndex k)
  let cap ← daoCapacity cellDeps voteLock depIdx
  .ok (sums.1 + 1, saturatingAdd sums.2 cap)

section Code

variable [Blake2b]

/-- Whether a cell dep's type script is the proposal the args identify. -/
def isProposal (expectedBlake160 : Bytes) (maybeTypeScript : Option Bytes) : Bool :=
  match maybeTypeScript with
  | some typeScript => (blake160 typeScript).val == expectedBlake160
  | none => false

/-- The checks on the one vote output of a transaction. -/
def verifyVote (rtx : ResolvedTx) (voteOutput : Cell) (args : Bytes) : ScriptRun Error Unit := do
  let cellDeps := rtx.cellDeps.map Prod.snd
  let proposalFound ← queryAny Cell.loadType (isProposal args) cellDeps
  if !proposalFound then .error (.exit .proposalNotFound)
  else
    let voteLock ← orExit .argsInvalid voteOutput.loadLock
    let voteData ← orExit .voteDataInvalid voteOutput.loadData
    let vote ← orExit .voteDataInvalid (fromSlice VoteReader.verify voteData)
    let voteValue ← orPanic (VoteReader.vote vote >>= firstByte)
    if voteValue ≠ 0 ∧ voteValue ≠ 1 then .error (.exit .voteDataInvalid)
    else
      let voterLockFound ← queryAny Cell.loadLock (fun lock => lock == voteLock) rtx.inputs
      if !voterLockFound then .error (.exit .voterLockNotFound)
      else
        let amount ← orPanic (VoteReader.amount vote)
        let expectedAmount ← orExit .voteDataInvalid (fromLeBytes 8 "" amount)
        let daoIndex ← orPanic (VoteReader.daoIndex vote)
        let count ← orPanic (FixVec.itemCount daoIndex)
        let (daoDepCount, totalCapacity) ←
          forRange (sumStep cellDeps voteLock daoIndex) count 0 (0, 0)
        if daoDepCount = 0 ∨ totalCapacity = 0 then .error (.exit .daoDepInvalid)
        else if totalCapacity ≠ expectedAmount then .error (.exit .amountMismatch)
        else .ok ()

/-- `run`. -/
def run (rtx : ResolvedTx) (script : Bytes) : ScriptRun Error Unit := do
  let script ← orExit .argsInvalid (checkScript script)
  let args ← orPanic (scriptArgs script)
  if args.length ≠ 20 then .error (.exit .argsInvalid)
  else
    let groupOutputs := group script rtx.tx.outputs
    let groupOutputCount ← queryCount Cell.loadLock (fun _ => true) groupOutputs
    if groupOutputCount = 0 then .ok ()
    else if groupOutputCount > 1 then .error (.exit .multipleVoteOutputs)
    else
      match groupOutputs with
      | [] => .error (.exit .argsInvalid)
      | voteOutput :: _ => verifyVote rtx voteOutput args

/-! ## What acceptance means -/

/-- The entries of a vote's `dao_index`. -/
def daoIndices (vote : Bytes) : Run (List Nat) := do
  let daoIndex ← VoteReader.daoIndex vote
  readRange (daoIndexEntry daoIndex) (← FixVec.itemCount daoIndex) 0

/-- Direction byte and amount of a vote. -/
def readBallot (vote : Bytes) : Run Ballot := do
  let direction ← firstByte (← VoteReader.vote vote)
  let amount ← fromLeBytes 8 "Uint64 is 8 bytes" (← VoteReader.amount vote)
  .ok (direction, amount)

/-- The cell deps whose capacities a run adds up for the vote in `data`. -/
structure Summed (rtx : ResolvedTx) (data : Bytes) (indices : List Nat)
    (deps : List (OutPoint × Cell)) : Prop where
  indices_eq : daoIndices data = .ok indices
  deps_eq : indices.map (fun i => rtx.cellDeps[i]?) = deps.map some
  amount : ∃ ballot, readBallot data = .ok ballot ∧
    ballot.2 = (deps.map fun dep => dep.2.capacity).foldl saturatingAdd 0

/-- What a run that accepts a vote has checked. -/
structure Creation (rtx : ResolvedTx) (script : Bytes) (voteOutput : Cell) : Prop where
  group_eq : group script rtx.tx.outputs = [voteOutput]
  proposal : ∃ dep ∈ rtx.cellDeps, ∃ proposalScript, dep.2.type_ = some proposalScript ∧
    scriptArgs script = .ok (blake160 proposalScript).val
  lock_ok : ScriptReader.verify false voteOutput.lock = .ok ()
  vote_ok : VoteReader.verify false voteOutput.data = .ok ()
  summed : ∃ indices deps, Summed rtx voteOutput.data indices deps

/-- A deposit of the lock's owner in the Nervos DAO. -/
structure IsDeposit (voteLock : Bytes) (cell : Cell) : Prop where
  lock_eq : cell.lock = voteLock
  dao : ∃ depType, cell.type_ = some depType ∧ ScriptReader.codeHash depType = .ok daoCodeHash ∧
    (ScriptReader.hashType depType >>= firstByte) = .ok daoHashType ∧ scriptArgs depType = .ok []

omit [Blake2b] in
/-- A capacity that is returned is that of a deposit of the voter. -/
theorem daoCapacity_eq_ok {cellDeps : List Cell} {voteLock : Bytes} {depIdx cap : Nat}
    (h : daoCapacity cellDeps voteLock depIdx = .ok cap) :
    ∃ cell, cellDeps[depIdx]? = some cell ∧ IsDeposit voteLock cell ∧ cell.capacity = cap := by
  obtain ⟨depLock, hlock, h⟩ := bind_eq_ok.mp h
  obtain ⟨cell, hcell, hload⟩ := loadAt_eq_ok.mp (orExit_eq_ok.mp hlock)
  obtain ⟨-, hload⟩ := checkScript_eq_ok.mp hload
  obtain ⟨depType, htype, h⟩ := bind_eq_ok.mp h
  obtain ⟨typeCell, htypeCell, hloadType⟩ := loadAt_eq_ok.mp (orExit_eq_ok.mp htype)
  cases depType with
  | none => cases h
  | some depType =>
      obtain ⟨hlockEq, h⟩ := guard_eq_ok.mp h
      obtain ⟨code, hcode, h⟩ := bind_eq_ok.mp h
      obtain ⟨hcodeEq, h⟩ := guard_eq_ok.mp h
      obtain ⟨hashType, hhash, h⟩ := bind_eq_ok.mp h
      obtain ⟨hhashEq, h⟩ := guard_eq_ok.mp h
      obtain ⟨args, hargs, h⟩ := bind_eq_ok.mp h
      obtain ⟨hargsEq, h⟩ := guard_eq_ok.mp h
      obtain ⟨cell', hcell', hcap⟩ := loadAt_eq_ok.mp (orExit_eq_ok.mp h)
      rw [hcell] at hcell' htypeCell
      cases hcell'
      cases htypeCell
      refine ⟨cell, hcell, ⟨hload.trans (not_not.mp hlockEq), depType,
        Cell.type_of_loadType hloadType, ?_, ?_, ?_⟩, Except.ok.inj hcap⟩
      · rw [orPanic_eq_ok.mp hcode, not_not.mp hcodeEq]
      · rw [orPanic_eq_ok.mp hhash, not_not.mp hhashEq]
      · rw [orPanic_eq_ok.mp hargs, not_not.mp hargsEq]

omit [Blake2b] in
/-- Turning errors into panics keeps what a range reads. -/
theorem readRange_orPanic {ε α : Type} {get : Nat → Run α} {count start : Nat} {items : List α} :
    readRange (fun k => (orPanic (get k) : ScriptRun ε α)) count start = .ok items ↔
      readRange get count start = .ok items := by
  simp only [readRange_eq_ok, orPanic_eq_ok]

omit [Blake2b] in
/-- Capacities that were all read belong to deposits that the indices select. -/
theorem cells_of_capacities {cellDeps : List Cell} {voteLock : Bytes} {indices caps : List Nat}
    (h : indices.map (daoCapacity cellDeps voteLock) = caps.map .ok) :
    ∃ cells : List Cell, indices.map (fun i => cellDeps[i]?) = cells.map some ∧
      caps = cells.map Cell.capacity ∧ ∀ cell ∈ cells, IsDeposit voteLock cell := by
  induction indices generalizing caps with
  | nil =>
      rw [List.map_nil, List.nil_eq, List.map_eq_nil_iff] at h
      exact ⟨[], rfl, h, by simp⟩
  | cons i indices ih =>
      cases caps with
      | nil => simp at h
      | cons cap caps =>
          simp only [List.map_cons, List.cons.injEq] at h
          obtain ⟨cell, hcell, hdeposit, hcap⟩ := daoCapacity_eq_ok h.1
          obtain ⟨cells, hrest, rfl, hdeposits⟩ := ih h.2
          exact ⟨cell :: cells, by simp [hcell, hrest], by simp [hcap],
            List.forall_mem_cons.mpr ⟨hdeposit, hdeposits⟩⟩

omit [Blake2b] in
/-- The loop over `dao_index` counts the entries and sums the capacities of the
deposits they select. -/
theorem forRange_sumStep {cellDeps : List Cell} {voteLock daoIndex : Bytes} {count n total : Nat}
    (h : forRange (sumStep cellDeps voteLock daoIndex) count 0 (0, 0) = .ok (n, total)) :
    ∃ (indices : List Nat) (cells : List Cell),
      readRange (daoIndexEntry daoIndex) count 0 = .ok indices ∧
      indices.map (fun i => cellDeps[i]?) = cells.map some ∧ n = cells.length ∧
      total = (cells.map Cell.capacity).foldl saturatingAdd 0 ∧
      ∀ cell ∈ cells, IsDeposit voteLock cell := by
  have hloop := forRange_pure (sumStep cellDeps voteLock daoIndex)
    (fun k => orPanic (daoIndexEntry daoIndex k) >>= daoCapacity cellDeps voteLock)
    (fun sums cap => (sums.1 + 1, saturatingAdd sums.2 cap))
    (fun k sums => by simp only [sumStep, bind_assoc]) count 0 (0, 0)
  rw [hloop] at h
  obtain ⟨caps, hcaps, h⟩ := bind_eq_ok.mp h
  obtain ⟨indices, hindices, hmap⟩ := readRange_bind.mp hcaps
  have hfold : ∀ (caps : List Nat) (sums : Nat × Nat), caps.foldl (fun sums cap =>
      (sums.1 + 1, saturatingAdd sums.2 cap)) sums =
      (sums.1 + caps.length, caps.foldl saturatingAdd sums.2) := by
    intro caps
    induction caps with
    | nil => exact fun _ => rfl
    | cons cap caps ih =>
        intro sums
        rw [List.foldl_cons, List.foldl_cons, ih, List.length_cons, Nat.add_right_comm]
        rfl
  obtain ⟨cells, hselect, rfl, hdeposits⟩ := cells_of_capacities hmap
  have hsums := Except.ok.inj h
  rw [hfold, Nat.zero_add, List.length_map, Prod.mk.injEq] at hsums
  exact ⟨indices, cells, readRange_orPanic.mp hindices, hselect, hsums.1.symm, hsums.2.symm,
    hdeposits⟩

omit [Blake2b] in
/-- A selection among the cells of resolved deps, with their out points. -/
theorem exists_deps {deps : List (OutPoint × Cell)} {indices : List Nat} {cells : List Cell}
    (h : indices.map (fun i => (deps.map Prod.snd)[i]?) = cells.map some) :
    ∃ selected : List (OutPoint × Cell), indices.map (fun i => deps[i]?) = selected.map some ∧
      selected.map Prod.snd = cells := by
  induction indices generalizing cells with
  | nil =>
      rw [List.map_nil, List.nil_eq, List.map_eq_nil_iff] at h
      exact ⟨[], rfl, h.symm⟩
  | cons i indices ih =>
      cases cells with
      | nil => simp at h
      | cons cell cells =>
          simp only [List.map_cons, List.cons.injEq, List.getElem?_map,
            Option.map_eq_some_iff] at h
          obtain ⟨⟨dep, hdep, hcell⟩, hrest⟩ := h
          obtain ⟨selected, hselected, hcells⟩ := ih (by simpa [List.getElem?_map] using hrest)
          exact ⟨dep :: selected, by simp [hdep, hselected], by simp [hcell, hcells]⟩

/-- The proposal that the query over the cell deps finds. -/
theorem proposal_of_query {deps : List (OutPoint × Cell)} {args : Bytes}
    (h : (queryAny Cell.loadType (isProposal args) (deps.map Prod.snd) : ScriptRun Error Bool) =
      .ok true) :
    ∃ dep ∈ deps, ∃ proposalScript, dep.2.type_ = some proposalScript ∧
      args = (blake160 proposalScript).val := by
  obtain ⟨cell, hmem, typeScript, hload, hmatch⟩ := queryAny_eq_true h
  obtain ⟨dep, hdep, rfl⟩ := List.mem_map.mp hmem
  cases typeScript with
  | none => cases hmatch
  | some script =>
      simp only [isProposal, beq_iff_eq] at hmatch
      exact ⟨dep, hdep, script, Cell.type_of_loadType hload, hmatch.symm⟩

/-- **An accepted vote** has its proposal among the cell deps, selects at least
one deposit of its lock's owner, and has an amount that is the sum over the
deposits it selects. -/
theorem verifyVote_eq_ok {rtx : ResolvedTx} {voteOutput : Cell} {args : Bytes}
    (h : verifyVote rtx voteOutput args = .ok ()) :
    (∃ dep ∈ rtx.cellDeps, ∃ proposalScript, dep.2.type_ = some proposalScript ∧
      args = (blake160 proposalScript).val) ∧
      ScriptReader.verify false voteOutput.lock = .ok () ∧
      VoteReader.verify false voteOutput.data = .ok () ∧
      ∃ indices deps, Summed rtx voteOutput.data indices deps ∧ deps ≠ [] ∧
        ∀ dep ∈ deps, IsDeposit voteOutput.lock dep.2 := by
  obtain ⟨found, hfound, h⟩ := bind_eq_ok.mp h
  obtain ⟨hproposal, h⟩ := guard_eq_ok.mp h
  obtain ⟨voteLock, hlock, h⟩ := bind_eq_ok.mp h
  obtain ⟨voteData, hdata, h⟩ := bind_eq_ok.mp h
  obtain ⟨vote, hvote, h⟩ := bind_eq_ok.mp h
  obtain ⟨voteValue, hvalue, h⟩ := bind_eq_ok.mp h
  obtain ⟨-, h⟩ := guard_eq_ok.mp h
  obtain ⟨lockFound, -, h⟩ := bind_eq_ok.mp h
  obtain ⟨-, h⟩ := guard_eq_ok.mp h
  obtain ⟨amountSlice, hamount, h⟩ := bind_eq_ok.mp h
  obtain ⟨amount, hamountNat, h⟩ := bind_eq_ok.mp h
  obtain ⟨daoIndex, hdao, h⟩ := bind_eq_ok.mp h
  obtain ⟨count, hcount, h⟩ := bind_eq_ok.mp h
  obtain ⟨⟨n, total⟩, hloop, h⟩ := bind_eq_ok.mp h
  obtain ⟨hcounted, h⟩ := guard_eq_ok.mp h
  obtain ⟨htotal, -⟩ := guard_eq_ok.mp h
  obtain rfl : voteOutput.data = voteData := Except.ok.inj (orExit_eq_ok.mp hdata)
  obtain ⟨hvoteOk, rfl⟩ := fromSlice_eq_ok.mp (orExit_eq_ok.mp hvote)
  obtain ⟨indices, cells, hindices, hcells, hlen, hsum, hdeposits⟩ := forRange_sumStep hloop
  obtain ⟨deps, hdeps, rfl⟩ := exists_deps hcells
  obtain ⟨hlockOk, rfl⟩ := checkScript_eq_ok.mp (orExit_eq_ok.mp hlock)
  refine ⟨?_, hlockOk, hvoteOk, indices, deps, ⟨?_, hdeps, ?_⟩, ?_,
    fun dep hdep => hdeposits _ (List.mem_map_of_mem hdep)⟩
  · have htrue : found = true := by simpa using hproposal
    subst htrue
    exact proposal_of_query hfound
  · rw [daoIndices, orPanic_eq_ok.mp hdao, ok_bind, orPanic_eq_ok.mp hcount, ok_bind, hindices]
  · obtain ⟨slice, hslice, hdirection⟩ := bind_eq_ok.mp (orPanic_eq_ok.mp hvalue)
    have hnumber : fromLeBytes 8 "Uint64 is 8 bytes" amountSlice = .ok amount := by
      obtain ⟨array, harray, hnat⟩ := bind_eq_ok.mp (orExit_eq_ok.mp hamountNat)
      rw [fromLeBytes, toFixed_eq_ok.mpr (toFixed_eq_ok.mp harray), ok_bind]
      exact hnat
    refine ⟨(voteValue, amount), ?_, ?_⟩
    · rw [readBallot, hslice, ok_bind, hdirection, ok_bind, orPanic_eq_ok.mp hamount, ok_bind,
        hnumber]
      rfl
    · rw [List.map_map] at hsum
      exact (not_not.mp htotal).symm.trans hsum
  · intro hnil
    simp [hlen, hnil] at hcounted

/-- An accepted run has no group output or one that passed the checks. -/
theorem verifyVote_of_run {rtx : ResolvedTx} {script : Bytes} (h : run rtx script = .ok ()) :
    group script rtx.tx.outputs = [] ∨ ∃ voteOutput args,
      group script rtx.tx.outputs = [voteOutput] ∧ scriptArgs script = .ok args ∧
      verifyVote rtx voteOutput args = .ok () := by
  obtain ⟨loaded, hload, h⟩ := bind_eq_ok.mp h
  obtain ⟨-, rfl⟩ := checkScript_eq_ok.mp (orExit_eq_ok.mp hload)
  obtain ⟨args, hargs, h⟩ := bind_eq_ok.mp h
  obtain ⟨-, h⟩ := guard_eq_ok.mp h
  obtain ⟨count, hcount, h⟩ := bind_eq_ok.mp h
  obtain ⟨items, hitems, hlen⟩ := queryCount_eq_ok hcount
  have hgroup : count = (group script rtx.tx.outputs).length := by
    have := congrArg List.length hitems
    simp only [List.length_map] at this
    rw [hlen, this, List.countP_eq_length]
    simp
  by_cases hzero : count = 0
  · exact Or.inl (List.length_eq_zero_iff.mp (hgroup ▸ hzero))
  · rw [if_neg hzero] at h
    obtain ⟨hone, h⟩ := guard_eq_ok.mp h
    obtain ⟨voteOutput, hcell⟩ := List.length_eq_one_iff.mp
      (show (group script rtx.tx.outputs).length = 1 by omega)
    rw [hcell] at h
    exact Or.inr ⟨voteOutput, args, hcell, orPanic_eq_ok.mp hargs, h⟩

/-- **An accepted run** either has no group output or casts one vote. -/
theorem run_eq_ok {rtx : ResolvedTx} {script : Bytes} (h : run rtx script = .ok ()) :
    group script rtx.tx.outputs = [] ∨ ∃ voteOutput, Creation rtx script voteOutput := by
  rcases verifyVote_of_run h with hnone | ⟨voteOutput, args, hcell, hargs, hchecked⟩
  · exact Or.inl hnone
  · obtain ⟨⟨dep, hdep, proposalScript, htype, hblake⟩, hlock, hvote, indices, deps, hsummed, -⟩ :=
      verifyVote_eq_ok hchecked
    refine Or.inr ⟨voteOutput, hcell, ⟨dep, hdep, proposalScript, htype, ?_⟩, hlock, hvote,
      indices, deps, hsummed⟩
    rw [hargs, hblake]

end Code

end VoteTypeScript

end CkbVote
