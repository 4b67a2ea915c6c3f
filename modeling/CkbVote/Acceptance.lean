import CkbVote.ProposalTypeScript
import CkbVote.VoteAgreement

/-!
# Exactly what the two scripts accept

A script run that panics is refused like any other, but with no error code
that says why.  Both scripts read unchecked only what they have verified, so
the one source of panics is an iterator over cells whose scripts do not parse
strictly.  The vote script iterates over locks and types, the proposal script
over type hashes alone.

`vote_run_exact` and `proposal_run_exact` give the transactions either script
accepts in full: whatever meets the conditions
passes, nothing else does, and the run never ends in a panic.
-/

namespace CkbVote

open Octets Molecule

/-! ## Runs without a panic -/

section NoPanic

variable {ε α β σ : Type}

/-- The run ends with a value or with an error code of the script. -/
def NoPanic (x : ScriptRun ε α) : Prop := x ≠ .error .panic

namespace NoPanic

theorem ok (a : α) : NoPanic (.ok a : ScriptRun ε α) := nofun

theorem exit (error : ε) : NoPanic (.error (.exit error) : ScriptRun ε α) := nofun

/-- A run does not panic when neither its first part nor what follows does. -/
theorem bind {x : ScriptRun ε α} {f : α → ScriptRun ε β} (hx : NoPanic x)
    (hf : ∀ a, x = .ok a → NoPanic (f a)) : NoPanic (x >>= f) := by
  cases x with
  | ok a => exact hf a rfl
  | error fault => exact fun h => hx (congrArg Except.error (Except.error.inj h))

/-- A guard ends a run with an error code. -/
theorem guard {c : Prop} [Decidable c] {error : ε} {x : ScriptRun ε α}
    (hx : ¬ c → NoPanic x) : NoPanic (if c then .error (.exit error) else x) := by
  by_cases hc : c
  · rw [if_pos hc]
    exact exit error
  · rw [if_neg hc]
    exact hx hc

theorem orExit {δ : Type} (error : ε) (x : Except δ α) : NoPanic (orExit error x) := by
  cases x <;> nofun

theorem orPanic {δ : Type} {x : Except δ α} (h : ∃ a, x = .ok a) :
    NoPanic (orPanic x : ScriptRun ε α) := by
  obtain ⟨a, rfl⟩ := h
  exact ok a

/-- A loop does not panic when its body never does. -/
theorem forRange {body : Nat → σ → ScriptRun ε σ} {count start : Nat} {s : σ}
    (h : ∀ i < count, ∀ s, NoPanic (body (start + i) s)) :
    NoPanic (forRange body count start s) := by
  induction count generalizing start s with
  | zero => exact ok s
  | succ count ih =>
      refine bind (h 0 (by omega) s) fun s' _ => ih fun i hi s => ?_
      have hbody := h (i + 1) (by omega) s
      rwa [show start + (i + 1) = start + 1 + i by omega] at hbody

end NoPanic

end NoPanic

/-! ## Cells whose scripts parse -/

/-- Lock and type of the cell parse strictly. -/
structure Cell.WellFormed (cell : Cell) : Prop where
  lock_ok : ScriptReader.verify false cell.lock = .ok ()
  type_ok : ∀ script, cell.type_ = some script → ScriptReader.verify false script = .ok ()

/-- Every cell of the transaction is well formed. -/
structure ResolvedTx.WellFormed (rtx : ResolvedTx) : Prop where
  inputs : ∀ cell ∈ rtx.inputs, cell.WellFormed
  cellDeps : ∀ dep ∈ rtx.cellDeps, dep.2.WellFormed
  outputs : ∀ cell ∈ rtx.tx.outputs, cell.WellFormed

instance (cell : Cell) : Decidable cell.WellFormed :=
  decidable_of_iff (ScriptReader.verify false cell.lock = .ok () ∧
    ∀ script ∈ cell.type_, ScriptReader.verify false script = .ok ())
    ⟨fun h => ⟨h.1, fun script hs => h.2 script hs⟩, fun h => ⟨h.lock_ok, h.type_ok⟩⟩

instance (rtx : ResolvedTx) : Decidable rtx.WellFormed :=
  decidable_of_iff ((∀ cell ∈ rtx.inputs, cell.WellFormed) ∧
    (∀ dep ∈ rtx.cellDeps, dep.2.WellFormed) ∧ ∀ cell ∈ rtx.tx.outputs, cell.WellFormed)
    ⟨fun h => ⟨h.1, h.2.1, h.2.2⟩, fun h => ⟨h.inputs, h.cellDeps, h.outputs⟩⟩

/-- The lock of a well-formed cell is loaded. -/
theorem Cell.WellFormed.loadLock_eq {cell : Cell} (h : cell.WellFormed) :
    cell.loadLock = .ok cell.lock :=
  checkScript_eq_ok.mpr ⟨h.lock_ok, rfl⟩

/-- The type script of a well-formed cell is loaded. -/
theorem Cell.WellFormed.loadType_eq {cell : Cell} (h : cell.WellFormed) :
    cell.loadType = .ok cell.type_ := by
  unfold Cell.loadType
  cases htype : cell.type_ with
  | none => rfl
  | some script =>
      have hcheck : checkScript script = .ok script :=
        checkScript_eq_ok.mpr ⟨h.type_ok script htype, rfl⟩
      simp only [hcheck, Except.map]

section Queries

variable {ε α : Type} {load : Cell → Except SysError α} {cells : List Cell}

/-- A query over cells that load asks whether one of them has the property. -/
theorem queryAny_eq {f : Cell → α} (p : α → Bool) (h : ∀ cell ∈ cells, load cell = .ok (f cell)) :
    (queryAny load p cells : ScriptRun ε Bool) = .ok (cells.any fun cell => p (f cell)) := by
  induction cells with
  | nil => rfl
  | cons cell cells ih =>
      obtain ⟨hcell, hcells⟩ := List.forall_mem_cons.mp h
      rw [queryAny, hcell, ih hcells]
      simp only [orPanic, ok_bind, List.any_cons]
      cases p (f cell) <;> rfl

/-- A count over cells that load counts those that pass the test. -/
theorem queryCount_eq {f : Cell → α} (p : α → Bool)
    (h : ∀ cell ∈ cells, load cell = .ok (f cell)) :
    (queryCount load p cells : ScriptRun ε Nat) = .ok (cells.countP fun cell => p (f cell)) := by
  induction cells with
  | nil => rfl
  | cons cell cells ih =>
      obtain ⟨hcell, hcells⟩ := List.forall_mem_cons.mp h
      rw [queryCount, hcell, ih hcells, List.countP_cons]
      simp only [orPanic, ok_bind]
      cases p (f cell) <;> rfl

end Queries

/-- The args of a script that parses are read. -/
theorem scriptArgs_ok {script : Bytes} (h : ScriptReader.verify false script = .ok ()) :
    ∃ args, scriptArgs script = .ok args := by
  obtain ⟨-, -, hargs, hlen⟩ := ScriptReader.fields_of_verify h
  exact ⟨_, by rw [scriptArgs, hargs, ok_bind, rawData_ok hlen]⟩

/-- What the loader returns for a type has parsed. -/
theorem Cell.verify_of_loadType {cell : Cell} {script : Bytes}
    (h : cell.loadType = .ok (some script)) : ScriptReader.verify false script = .ok () := by
  have htype := Cell.type_of_loadType h
  simp only [Cell.loadType, htype, checkScript] at h
  split at h
  · assumption
  · cases h

/-! ## The vote script -/

namespace VoteTypeScript

section Deposits

variable {cellDeps : List Cell} {voteLock : Bytes}

/-- A deposit is checked without a panic. -/
theorem noPanic_daoCapacity (depIdx : Nat) : NoPanic (daoCapacity cellDeps voteLock depIdx) := by
  refine NoPanic.bind (NoPanic.orExit _ _) fun depLock _ => ?_
  refine NoPanic.bind (NoPanic.orExit _ _) fun depType htype => ?_
  cases depType with
  | none => exact NoPanic.exit _
  | some depType =>
      obtain ⟨cell, -, hload⟩ := loadAt_eq_ok.mp (orExit_eq_ok.mp htype)
      have hverify := Cell.verify_of_loadType hload
      obtain ⟨⟨hcode, -⟩, ⟨hhash, hlen⟩, -, -⟩ := ScriptReader.fields_of_verify hverify
      have hbyte : ∃ x, (ScriptReader.hashType depType >>= firstByte) = .ok x := by
        rw [hhash]
        exact firstByte_ok hlen
      refine NoPanic.guard fun _ => ?_
      refine NoPanic.bind (NoPanic.orPanic ⟨_, hcode⟩) fun _ _ => NoPanic.guard fun _ => ?_
      refine NoPanic.bind (NoPanic.orPanic hbyte) fun _ _ => NoPanic.guard fun _ => ?_
      exact NoPanic.bind (NoPanic.orPanic (scriptArgs_ok hverify)) fun _ _ =>
        NoPanic.guard fun _ => NoPanic.orExit _ _

/-- A deposit that is a cell dep is summed. -/
theorem daoCapacity_of_deposit {depIdx : Nat} {cell : Cell} (hcell : cellDeps[depIdx]? = some cell)
    (hwell : cell.WellFormed) (h : IsDeposit voteLock cell) :
    daoCapacity cellDeps voteLock depIdx = .ok cell.capacity := by
  obtain ⟨depType, htype, hcode, hhash, hargs⟩ := h.dao
  have hlock : loadAt cellDeps depIdx Cell.loadLock = .ok cell.lock :=
    loadAt_eq_ok.mpr ⟨cell, hcell, hwell.loadLock_eq⟩
  have hloadType : loadAt cellDeps depIdx Cell.loadType = .ok (some depType) :=
    loadAt_eq_ok.mpr ⟨cell, hcell, htype ▸ hwell.loadType_eq⟩
  have hcapacity : loadAt cellDeps depIdx Cell.loadCapacity = .ok cell.capacity :=
    loadAt_eq_ok.mpr ⟨cell, hcell, rfl⟩
  simp only [daoCapacity, hlock, hloadType, hcapacity, hcode, hhash, hargs, orExit, orPanic,
    ok_bind, h.lock_eq, ne_eq, not_true_eq_false, if_false]

omit voteLock cellDeps in
/-- Counting and summing in one fold. -/
theorem foldl_sums (caps : List Nat) (sums : Nat × Nat) :
    caps.foldl (fun sums cap => (sums.1 + 1, saturatingAdd sums.2 cap)) sums =
      (sums.1 + caps.length, caps.foldl saturatingAdd sums.2) := by
  induction caps generalizing sums with
  | nil => rfl
  | cons cap caps ih =>
      rw [List.foldl_cons, List.foldl_cons, ih, List.length_cons, Nat.add_right_comm]
      rfl

/-- The loop over a `dao_index` that selects deposits sums their capacities. -/
theorem forRange_sumStep_of_deposits {daoIndex : Bytes} {count : Nat} {indices : List Nat}
    {cells : List Cell} (hindices : readRange (daoIndexEntry daoIndex) count 0 = .ok indices)
    (hcells : indices.map (fun i => cellDeps[i]?) = cells.map some)
    (hwell : ∀ cell ∈ cells, cell.WellFormed)
    (hdeposits : ∀ cell ∈ cells, IsDeposit voteLock cell) :
    forRange (sumStep cellDeps voteLock daoIndex) count 0 (0, 0) =
      .ok (cells.length, (cells.map Cell.capacity).foldl saturatingAdd 0) := by
  have hcaps : indices.map (daoCapacity cellDeps voteLock) = (cells.map Cell.capacity).map .ok := by
    clear hindices
    induction indices generalizing cells with
    | nil =>
        obtain rfl : cells = [] := by simpa using hcells.symm
        rfl
    | cons i indices ih =>
        cases cells with
        | nil => simp at hcells
        | cons cell cells =>
            simp only [List.map_cons, List.cons.injEq] at hcells
            obtain ⟨hwellCell, hwell⟩ := List.forall_mem_cons.mp hwell
            obtain ⟨hdeposit, hdeposits⟩ := List.forall_mem_cons.mp hdeposits
            simp only [List.map_cons]
            rw [daoCapacity_of_deposit hcells.1 hwellCell hdeposit, ih hcells.2 hwell hdeposits]
  have hread : readRange (fun k => orPanic (daoIndexEntry daoIndex k) >>=
      daoCapacity cellDeps voteLock) count 0 = .ok (cells.map Cell.capacity) :=
    readRange_bind.mpr ⟨indices, readRange_orPanic.mpr hindices, hcaps⟩
  have hloop := forRange_pure (sumStep cellDeps voteLock daoIndex)
    (fun k => orPanic (daoIndexEntry daoIndex k) >>= daoCapacity cellDeps voteLock)
    (fun sums cap => (sums.1 + 1, saturatingAdd sums.2 cap))
    (fun k sums => by simp only [sumStep, bind_assoc]) count 0 (0, 0)
  rw [hread, ok_bind] at hloop
  rw [foldl_sums, Nat.zero_add, List.length_map] at hloop
  exact hloop

end Deposits

section Code

variable [Blake2b]

/-- What a transaction has that casts a vote: the proposal among its cell deps,
an input under the voter's lock, vote data that parses strictly with direction
0 or 1, and an amount, not zero, that is the sum over the deposits of the lock
that the data selects. -/
structure CastsVote (rtx : ResolvedTx) (voteOutput : Cell) (args : Bytes) : Prop where
  proposal : ∃ dep ∈ rtx.cellDeps, ∃ proposalScript, dep.2.type_ = some proposalScript ∧
    args = (blake160 proposalScript).val
  voter : ∃ input ∈ rtx.inputs, input.lock = voteOutput.lock
  vote_ok : VoteReader.verify false voteOutput.data = .ok ()
  ballot : ∃ direction amount, readBallot voteOutput.data = .ok (direction, amount) ∧
    (direction = 0 ∨ direction = 1) ∧ amount ≠ 0
  deposits : ∃ indices deps, Summed rtx voteOutput.data indices deps ∧
    ∀ dep ∈ deps, IsDeposit voteOutput.lock dep.2

/-- Everything the vote script asks of a transaction. -/
structure Accepts (rtx : ResolvedTx) (script : Bytes) : Prop where
  script_ok : ScriptReader.verify false script = .ok ()
  args : ∃ args, scriptArgs script = .ok args ∧ args.length = 20 ∧
    (group script rtx.tx.outputs = [] ∨
      ∃ voteOutput, group script rtx.tx.outputs = [voteOutput] ∧ CastsVote rtx voteOutput args)

variable {rtx : ResolvedTx} {script : Bytes} {voteOutput : Cell} {args : Bytes}

omit [Blake2b] in
/-- A cell that is summed is a cell dep. -/
theorem Summed.mem_cellDeps {data : Bytes} {indices : List Nat} {deps : List (OutPoint × Cell)}
    (h : Summed rtx data indices deps) {dep : OutPoint × Cell} (hdep : dep ∈ deps) :
    dep ∈ rtx.cellDeps := by
  have hsome : some dep ∈ indices.map fun i => rtx.cellDeps[i]? :=
    h.deps_eq ▸ List.mem_map_of_mem hdep
  obtain ⟨i, -, hi⟩ := List.mem_map.mp hsome
  exact List.mem_of_getElem? hi

omit [Blake2b] in
/-- The ballot that strictly parsed vote data holds. -/
theorem readBallot_of_parts {data : Bytes} (h : VoteReader.verify false data = .ok ()) :
    ∃ direction, firstByte (part data 0) = .ok direction ∧
      readBallot data = .ok (direction, leNat (part data 1)) := by
  obtain ⟨⟨hvote, hvoteLen⟩, ⟨hamount, hamountLen⟩, -⟩ := VoteReader.fields_of_verify h
  obtain ⟨direction, hdirection⟩ := firstByte_ok hvoteLen
  exact ⟨direction, hdirection, by
    simp only [readBallot, hvote, hamount, hdirection, fromLeBytes_ok hamountLen, ok_bind]⟩

omit [Blake2b] in
/-- Whether some input is under the voter's lock. -/
theorem queryAny_lock (hwell : rtx.WellFormed) (voteLock : Bytes) :
    (queryAny Cell.loadLock (fun lock => lock == voteLock) rtx.inputs : ScriptRun Error Bool) =
      .ok (rtx.inputs.any fun cell => cell.lock == voteLock) :=
  queryAny_eq _ fun cell hcell => (hwell.inputs cell hcell).loadLock_eq

/-- The search for the proposal among the cell deps returns whether it is there.
-/
theorem queryAny_proposal (hwell : rtx.WellFormed) :
    (queryAny Cell.loadType (isProposal args) (rtx.cellDeps.map Prod.snd) :
      ScriptRun Error Bool) =
      .ok ((rtx.cellDeps.map Prod.snd).any fun cell => isProposal args cell.type_) := by
  refine queryAny_eq _ fun cell hcell => ?_
  obtain ⟨dep, hdep, rfl⟩ := List.mem_map.mp hcell
  exact (hwell.cellDeps dep hdep).loadType_eq

/-- A vote output that passes the checks casts a vote. -/
theorem castsVote_of_verifyVote (h : verifyVote rtx voteOutput args = .ok ()) :
    CastsVote rtx voteOutput args := by
  obtain ⟨hproposal, -, hvoteOk, indices, deps, hsummed, -, hdeposits⟩ := verifyVote_eq_ok h
  obtain ⟨found, -, h⟩ := bind_eq_ok.mp h
  obtain ⟨-, h⟩ := guard_eq_ok.mp h
  obtain ⟨voteLock, hlock, h⟩ := bind_eq_ok.mp h
  obtain ⟨voteData, hdata, h⟩ := bind_eq_ok.mp h
  obtain ⟨vote, hvote, h⟩ := bind_eq_ok.mp h
  obtain ⟨voteValue, hvalue, h⟩ := bind_eq_ok.mp h
  obtain ⟨hdirection, h⟩ := guard_eq_ok.mp h
  obtain ⟨lockFound, hvoter, h⟩ := bind_eq_ok.mp h
  obtain ⟨hlockFound, h⟩ := guard_eq_ok.mp h
  obtain ⟨amountSlice, hamount, h⟩ := bind_eq_ok.mp h
  obtain ⟨amount, hamountNat, h⟩ := bind_eq_ok.mp h
  obtain ⟨daoIndex, -, h⟩ := bind_eq_ok.mp h
  obtain ⟨count, -, h⟩ := bind_eq_ok.mp h
  obtain ⟨⟨n, total⟩, -, h⟩ := bind_eq_ok.mp h
  obtain ⟨hcounted, h⟩ := guard_eq_ok.mp h
  obtain ⟨htotal, -⟩ := guard_eq_ok.mp h
  obtain rfl : voteOutput.data = voteData := Except.ok.inj (orExit_eq_ok.mp hdata)
  obtain ⟨-, rfl⟩ := fromSlice_eq_ok.mp (orExit_eq_ok.mp hvote)
  obtain ⟨-, rfl⟩ := checkScript_eq_ok.mp (orExit_eq_ok.mp hlock)
  obtain ⟨⟨hvotePart, -⟩, ⟨hamountPart, hamountLen⟩, -⟩ := VoteReader.fields_of_verify hvoteOk
  refine ⟨hproposal, ?_, hvoteOk, ?_, indices, deps, hsummed, hdeposits⟩
  · obtain rfl : lockFound = true := by simpa using hlockFound
    obtain ⟨input, hinput, lock, hload, heq⟩ := queryAny_eq_true hvoter
    obtain ⟨-, rfl⟩ := checkScript_eq_ok.mp hload
    exact ⟨input, hinput, beq_iff_eq.mp heq⟩
  · obtain ⟨direction, hfirst, hballot⟩ := readBallot_of_parts hvoteOk
    have hvalueEq : firstByte (part voteOutput.data 0) = .ok voteValue := by
      have hread := orPanic_eq_ok.mp hvalue
      rwa [hvotePart, ok_bind] at hread
    obtain rfl : direction = voteValue := Except.ok.inj (hfirst.symm.trans hvalueEq)
    obtain rfl : part voteOutput.data 1 = amountSlice :=
      Except.ok.inj (hamountPart.symm.trans (orPanic_eq_ok.mp hamount))
    have hamountEq : leNat (part voteOutput.data 1) = amount := by
      have hread := orExit_eq_ok.mp hamountNat
      rw [fromLeBytes_ok hamountLen] at hread
      exact Except.ok.inj hread
    have hyesNo : direction = 0 ∨ direction = 1 := by
      by_contra hneither
      exact hdirection (not_or.mp hneither)
    refine ⟨direction, _, hballot, hyesNo, fun hzero => hcounted (Or.inr ?_)⟩
    rw [not_not.mp htotal, ← hamountEq, hzero]

/-- **A vote that meets the conditions passes.** -/
theorem verifyVote_of_castsVote (hwell : rtx.WellFormed) (hout : voteOutput ∈ rtx.tx.outputs)
    (h : CastsVote rtx voteOutput args) : verifyVote rtx voteOutput args = .ok () := by
  obtain ⟨⟨hvotePart, -⟩, ⟨hamountPart, hamountLen⟩, hdaoPart, hdaoLen⟩ :=
    VoteReader.fields_of_verify h.vote_ok
  obtain ⟨direction, hfirst, hballot⟩ := readBallot_of_parts h.vote_ok
  obtain ⟨direction', amount, hballot', hdirection, hamountNe⟩ := h.ballot
  obtain ⟨rfl, rfl⟩ : direction = direction' ∧ leNat (part voteOutput.data 1) = amount := by
    simpa using hballot.symm.trans hballot'
  obtain ⟨indices, deps, hsummed, hdeposits⟩ := h.deposits
  obtain ⟨ballot, hread, hsum⟩ := hsummed.amount
  obtain rfl := Except.ok.inj (hballot.symm.trans hread)
  have hproposal : ((rtx.cellDeps.map Prod.snd).any fun cell => isProposal args cell.type_) =
      true := by
    obtain ⟨dep, hdep, proposalScript, htype, hargs⟩ := h.proposal
    refine List.any_eq_true.mpr ⟨dep.2, List.mem_map_of_mem hdep, ?_⟩
    simp [isProposal, htype, hargs]
  have hvoter : (rtx.inputs.any fun cell => cell.lock == voteOutput.lock) = true := by
    obtain ⟨input, hinput, hlock⟩ := h.voter
    exact List.any_eq_true.mpr ⟨input, hinput, beq_iff_eq.mpr hlock⟩
  have hvote : fromSlice VoteReader.verify voteOutput.data = .ok voteOutput.data :=
    fromSlice_eq_ok.mpr ⟨h.vote_ok, rfl⟩
  have hcount : FixVec.itemCount (part voteOutput.data 2) =
      .ok (FixVec.items 2 (part voteOutput.data 2)).length := FixVec.itemCount_eq hdaoLen
  have hindices : readRange (daoIndexEntry (part voteOutput.data 2))
      (FixVec.items 2 (part voteOutput.data 2)).length 0 = .ok indices := by
    have hread := hsummed.indices_eq
    rwa [daoIndices, hdaoPart, ok_bind, hcount, ok_bind] at hread
  have hcells : indices.map (fun i => (rtx.cellDeps.map Prod.snd)[i]?) =
      (deps.map Prod.snd).map some := by
    have hmap := congrArg (List.map (Option.map Prod.snd)) hsummed.deps_eq
    simpa [List.map_map, Function.comp_def] using hmap
  have hloop := forRange_sumStep_of_deposits hindices hcells
    (List.forall_mem_map.mpr fun dep hdep => hwell.cellDeps dep (hsummed.mem_cellDeps hdep))
    (List.forall_mem_map.mpr hdeposits)
  have htotal : ((deps.map Prod.snd).map Cell.capacity).foldl saturatingAdd 0 =
      leNat (part voteOutput.data 1) := by
    rw [List.map_map]
    exact hsum.symm
  have hpositive : (deps.map Prod.snd).length ≠ 0 := by
    rw [List.length_map]
    intro hnil
    rw [List.length_eq_zero_iff.mp hnil] at hsum
    exact hamountNe hsum
  rw [htotal] at hloop
  simp only [verifyVote, queryAny_proposal hwell, hproposal, queryAny_lock hwell, hvoter,
    (hwell.outputs _ hout).loadLock_eq, Cell.loadData, hvote, hvotePart, hfirst, hamountPart,
    fromLeBytes_ok hamountLen, hdaoPart, hcount, hloop, orExit, orPanic, ok_bind, Bool.not_true,
    Bool.false_eq_true, if_false]
  rw [if_neg (not_and_or.mpr (hdirection.imp not_not.mpr not_not.mpr)),
    if_neg (not_or.mpr ⟨hpositive, hamountNe⟩), if_neg (by simp)]

/-- A vote is checked without a panic. -/
theorem noPanic_verifyVote (hwell : rtx.WellFormed) (voteOutput : Cell) (args : Bytes) :
    NoPanic (verifyVote rtx voteOutput args) := by
  refine NoPanic.bind (queryAny_proposal hwell ▸ NoPanic.ok _) fun _ _ => NoPanic.guard fun _ => ?_
  refine NoPanic.bind (NoPanic.orExit _ _) fun voteLock _ => ?_
  refine NoPanic.bind (NoPanic.orExit _ _) fun voteData _ => ?_
  refine NoPanic.bind (NoPanic.orExit _ _) fun vote hvote => ?_
  obtain ⟨hvoteOk, rfl⟩ := fromSlice_eq_ok.mp (orExit_eq_ok.mp hvote)
  obtain ⟨⟨hvotePart, hvoteLen⟩, ⟨hamountPart, -⟩, hdaoPart, hdaoLen⟩ :=
    VoteReader.fields_of_verify hvoteOk
  have hvalue : ∃ x, (VoteReader.vote voteData >>= firstByte) = .ok x := by
    rw [hvotePart]
    exact firstByte_ok hvoteLen
  refine NoPanic.bind (NoPanic.orPanic hvalue) fun _ _ => NoPanic.guard fun _ => ?_
  refine NoPanic.bind (queryAny_lock hwell _ ▸ NoPanic.ok _) fun _ _ => NoPanic.guard fun _ => ?_
  refine NoPanic.bind (NoPanic.orPanic ⟨_, hamountPart⟩) fun _ _ => ?_
  refine NoPanic.bind (NoPanic.orExit _ _) fun _ _ => ?_
  refine NoPanic.bind (NoPanic.orPanic ⟨_, hdaoPart⟩) fun daoIndex hdaoIndex => ?_
  obtain rfl : part voteData 2 = daoIndex :=
    Except.ok.inj (hdaoPart.symm.trans (orPanic_eq_ok.mp hdaoIndex))
  have hcount := FixVec.itemCount_eq hdaoLen
  refine NoPanic.bind (NoPanic.orPanic ⟨_, hcount⟩) fun count hcountEq => ?_
  obtain rfl := Except.ok.inj (hcount.symm.trans (orPanic_eq_ok.mp hcountEq))
  refine NoPanic.bind (NoPanic.forRange fun k hk sums => ?_) fun _ _ =>
    NoPanic.guard fun _ => NoPanic.guard fun _ => NoPanic.ok _
  -- an entry inside the vector has two bytes
  have hentry : ∃ i, daoIndexEntry (part voteData 2) (0 + k) = .ok i := by
    rw [Nat.zero_add, daoIndexEntry, FixVec.getUnchecked_eq hdaoLen hk, ok_bind]
    exact ⟨_, fromLeBytes_ok (FixVec.length_of_mem_items hdaoLen (List.getElem_mem hk))⟩
  exact NoPanic.bind (NoPanic.orPanic hentry) fun _ _ =>
    NoPanic.bind (noPanic_daoCapacity _) fun _ _ => NoPanic.ok _

/-- The count of the group outputs is their number. -/
theorem queryCount_group (hwell : rtx.WellFormed) :
    (queryCount Cell.loadLock (fun _ => true) (group script rtx.tx.outputs) :
      ScriptRun Error Nat) = .ok (group script rtx.tx.outputs).length := by
  have hload : ∀ cell ∈ group script rtx.tx.outputs, cell.loadLock = .ok cell.lock :=
    fun cell hcell => (hwell.outputs cell (List.mem_of_mem_filter hcell)).loadLock_eq
  rw [queryCount_eq (fun _ => true) hload, List.countP_true]

/-- The vote type script does not panic. -/
theorem noPanic_run (hwell : rtx.WellFormed) : NoPanic (run rtx script) := by
  refine NoPanic.bind (NoPanic.orExit _ _) fun loaded hload => ?_
  obtain ⟨hscript, rfl⟩ := checkScript_eq_ok.mp (orExit_eq_ok.mp hload)
  refine NoPanic.bind (NoPanic.orPanic (scriptArgs_ok hscript)) fun args _ =>
    NoPanic.guard fun _ => ?_
  simp only [queryCount_group hwell, ok_bind]
  by_cases hnone : (group script rtx.tx.outputs).length = 0
  · rw [if_pos hnone]
    exact NoPanic.ok _
  · rw [if_neg hnone]
    refine NoPanic.guard fun _ => ?_
    cases group script rtx.tx.outputs with
    | nil => exact NoPanic.exit _
    | cons voteOutput rest => exact noPanic_verifyVote hwell voteOutput args

/-- An accepting run has made every check. -/
theorem accepts_of_run (h : run rtx script = .ok ()) : Accepts rtx script := by
  obtain ⟨loaded, hload, hrun⟩ := bind_eq_ok.mp h
  obtain ⟨hscript, rfl⟩ := checkScript_eq_ok.mp (orExit_eq_ok.mp hload)
  obtain ⟨args, hargs, hrun⟩ := bind_eq_ok.mp hrun
  obtain ⟨hlen, -⟩ := guard_eq_ok.mp hrun
  refine ⟨hscript, args, orPanic_eq_ok.mp hargs, not_not.mp hlen, ?_⟩
  rcases verifyVote_of_run h with hnone | ⟨voteOutput, args', hgroup, hargs', hvote⟩
  · exact Or.inl hnone
  · obtain rfl := Except.ok.inj ((orPanic_eq_ok.mp hargs).symm.trans hargs')
    exact Or.inr ⟨voteOutput, hgroup, castsVote_of_verifyVote hvote⟩

/-- A transaction that meets every condition is accepted. -/
theorem run_of_accepts (hwell : rtx.WellFormed) (h : Accepts rtx script) :
    run rtx script = .ok () := by
  obtain ⟨hscript, args, hargs, hlen, hgroup⟩ := h
  have hload : checkScript script = .ok script := checkScript_eq_ok.mpr ⟨hscript, rfl⟩
  simp only [run, hload, hargs, orExit, orPanic, ok_bind, hlen, ne_eq, not_true_eq_false, if_false,
    queryCount_group hwell]
  rcases hgroup with hnone | ⟨voteOutput, hone, hcasts⟩
  · rw [hnone]
    rfl
  · have hmem : voteOutput ∈ rtx.tx.outputs :=
      List.mem_of_mem_filter (show voteOutput ∈ group script rtx.tx.outputs by simp [hone])
    rw [hone]
    exact verifyVote_of_castsVote hwell hmem hcasts

/-- **Exactly what the vote script accepts.**  On well-formed cells a run never
panics, and it accepts the transactions that create no cell of the script or
cast one vote, and no others. -/
theorem vote_run_exact (hwell : rtx.WellFormed) :
    NoPanic (run rtx script) ∧ (run rtx script = .ok () ↔ Accepts rtx script) :=
  ⟨noPanic_run hwell, accepts_of_run, run_of_accepts hwell⟩

end Code

end VoteTypeScript

namespace Sample

theorem resolvedVote_wellFormed : (resolvedVote codeVoteTx).WellFormed :=
  ⟨by decide, by decide, by decide⟩

end Sample

open Sample VoteTypeScript in
theorem vote_run_exact_codeVote :
    NoPanic (VoteTypeScript.run (resolvedVote codeVoteTx) voteScript) ∧
    (VoteTypeScript.run (resolvedVote codeVoteTx) voteScript = .ok () ↔
      VoteTypeScript.Accepts (resolvedVote codeVoteTx) voteScript) :=
  vote_run_exact resolvedVote_wellFormed

/-! ## The proposal type script -/

namespace ProposalTypeScript

variable [Blake2b]

/-- The witness of the first group input carries a proposal witness in its
`input_type` field. -/
structure Carries (rtx : ResolvedTx) (script proposalWitness : Bytes) : Prop where
  verified : ProposalWitnessReader.verify false proposalWitness = .ok ()
  carried : ∃ witness inputType, loadWitnessArgs rtx script = .ok witness ∧
    WitnessArgsReader.inputType witness = .ok inputType ∧ inputType ≠ [] ∧
    rawData inputType = .ok proposalWitness

/-- What the public values have to say of the cell that is settled. -/
structure Vouches (publicValues script : Bytes) (cell : Cell) (startHeader endHeader : Bytes) :
    Prop where
  proposal : PublicValuesReader.proposal publicValues = .ok cell.data
  start_hash : PublicValuesReader.startBlockHash publicValues = .ok (blake2b256 startHeader).val
  end_hash : PublicValuesReader.endBlockHash publicValues = .ok (blake2b256 endHeader).val
  script_eq : PublicValuesReader.proposalScript publicValues = .ok script
  passed : (PublicValuesReader.passed publicValues >>= firstByte) = .ok 1

/-- The one group output holds a proposal that parses strictly, under a type id. -/
structure Creates (ext : External) (rtx : ResolvedTx) (script : Bytes) : Prop where
  no_input : group script rtx.inputs = []
  type_id : ext.checkTypeId rtx script 0 20 = true
  output : ∃ cell, group script rtx.tx.outputs = [cell] ∧
    ProposalReader.verify false cell.data = .ok ()

/-- The first group input is settled by a proof about the window between the
two header deps. -/
structure Settles (ext : External) (rtx : ResolvedTx) (script args : Bytes) : Prop where
  no_output : group script rtx.tx.outputs = []
  settled : ∃ proposalWitness proof publicValues cell startHeader endHeader,
    Carries rtx script proposalWitness ∧
    (ProposalWitnessReader.proof proposalWitness >>= rawData) = .ok proof ∧
    ProposalWitnessReader.publicValues proposalWitness = .ok publicValues ∧
    (group script rtx.inputs)[0]? = some cell ∧
    loadHeader rtx 0 = .ok startHeader ∧ loadHeader rtx 1 = .ok endHeader ∧
    Vouches publicValues script cell startHeader endHeader ∧
    ext.plonkVerify proof publicValues ('0' :: 'x' :: hexEncode (slice args 20 52)) = true

/-- Everything the proposal script asks of a transaction. -/
structure Accepts (ext : External) (rtx : ResolvedTx) (script : Bytes) : Prop where
  script_ok : ScriptReader.verify false script = .ok ()
  args : ∃ args, scriptArgs script = .ok args ∧ args.length = 52 ∧
    (Creates ext rtx script ∨ Settles ext rtx script args)

variable {ext : External} {rtx : ResolvedTx} {script args : Bytes}

omit [Blake2b] in
/-- The fields of public values that parse. -/
theorem values_of_verify {values : Bytes} (h : PublicValuesReader.verify false values = .ok ()) :
    (∃ x, PublicValuesReader.proposal values = .ok x) ∧
      (∃ x, PublicValuesReader.startBlockHash values = .ok x) ∧
      (∃ x, PublicValuesReader.endBlockHash values = .ok x) ∧
      (∃ x, PublicValuesReader.proposalScript values = .ok x) ∧
      ∃ x, (PublicValuesReader.passed values >>= firstByte) = .ok x := by
  obtain ⟨hpassed, hlen⟩ := Table.field_of_verify h 4 (by simp)
  refine ⟨⟨_, (Table.field_of_verify h 0 (by simp)).1⟩,
    ⟨_, (Table.field_of_verify h 1 (by simp)).1⟩,
    ⟨_, (Table.field_of_verify h 2 (by simp)).1⟩, ⟨_, (Table.field_of_verify h 3 (by simp)).1⟩, ?_⟩
  rw [show PublicValuesReader.passed values = .ok (part values 4) from hpassed]
  exact firstByte_ok (verifyFixed_eq_ok.mp hlen)

omit [Blake2b] in
/-- The proof and the public values of a proposal witness that parses. -/
theorem witness_of_verify {witness : Bytes}
    (h : ProposalWitnessReader.verify false witness = .ok ()) :
    (∃ proof, (ProposalWitnessReader.proof witness >>= rawData) = .ok proof) ∧
      ∃ values, ProposalWitnessReader.publicValues witness = .ok values ∧
        PublicValuesReader.verify false values = .ok () := by
  obtain ⟨hproof, hproofOk⟩ := Table.field_of_verify h 0 (by simp)
  obtain ⟨hvalues, hvaluesOk⟩ := Table.field_of_verify h 1 (by simp)
  have hlen : (part witness 0).length = 4 + 1 * numberAt (part witness 0) 0 :=
    verifyFixVec_eq_ok.mp hproofOk
  refine ⟨?_, _, hvalues, hvaluesOk⟩
  rw [show ProposalWitnessReader.proof witness = .ok (part witness 0) from hproof, ok_bind]
  exact ⟨_, rawData_ok (by omega)⟩

/-- The `input_type` field of a witness that loads. -/
theorem inputType_of_load {witness : Bytes} (h : loadWitnessArgs rtx script = .ok witness) :
    ∃ inputType, WitnessArgsReader.inputType witness = .ok inputType ∧
      (inputType ≠ [] → ∃ content, rawData inputType = .ok content) := by
  have hverify : WitnessArgsReader.verify false witness = .ok () := by
    unfold loadWitnessArgs at h
    split at h
    · cases h
    · split at h
      · cases h
        assumption
      · cases h
  obtain ⟨hfield, hok⟩ := Table.field_of_verify hverify 1 (by simp)
  refine ⟨_, hfield, fun hne => ?_⟩
  have hlen : (part witness 1).length = 4 + 1 * numberAt (part witness 1) 0 :=
    verifyFixVec_eq_ok.mp ((verifyOption_eq_ok.mp hok).resolve_left hne)
  exact ⟨_, rawData_ok (by omega)⟩

/-- A creation is accepted exactly when it meets the conditions of one. -/
theorem verifyCreation_eq_ok (hin : group script rtx.inputs = []) :
    verifyCreation ext rtx script args = .ok () ↔ Creates ext rtx script := by
  constructor
  · intro h
    obtain ⟨htypeId, h⟩ := guard_eq_ok.mp h
    rw [queryCount_typeHash, ok_bind] at h
    obtain ⟨hone, h⟩ := guard_eq_ok.mp h
    obtain ⟨data, hdata, h⟩ := bind_eq_ok.mp h
    obtain ⟨proposal, hproposal, -⟩ := bind_eq_ok.mp h
    obtain ⟨cell, hcell⟩ := List.length_eq_one_iff.mp (not_not.mp hone)
    obtain ⟨found, hfound, hload⟩ := loadAt_eq_ok.mp (orExit_eq_ok.mp hdata)
    obtain rfl : cell = found := by simpa [hcell] using hfound
    obtain ⟨hverify, rfl⟩ := fromSlice_eq_ok.mp (orExit_eq_ok.mp hproposal)
    obtain rfl : cell.data = data := Except.ok.inj hload
    exact ⟨hin, by simpa using htypeId, cell, hcell, hverify⟩
  · rintro ⟨-, htypeId, cell, hcell, hverify⟩
    have hdata : loadAt (group script rtx.tx.outputs) 0 Cell.loadData = .ok cell.data :=
      loadAt_eq_ok.mpr ⟨cell, by simp [hcell], rfl⟩
    have hproposal : fromSlice ProposalReader.verify cell.data = .ok cell.data :=
      fromSlice_eq_ok.mpr ⟨hverify, rfl⟩
    simp only [verifyCreation, htypeId, queryCount_typeHash, hdata, hproposal, orExit, ok_bind]
    rw [if_neg (by simp), if_neg (by simp [hcell])]
    rfl

/-- A settlement passes exactly when everything it checks holds. -/
theorem verifySettlement_eq_ok (hout : group script rtx.tx.outputs = []) :
    verifySettlement ext rtx script args = .ok () ↔ Settles ext rtx script args := by
  constructor
  · intro h
    obtain ⟨witness, hwitness, h⟩ := bind_eq_ok.mp h
    obtain ⟨inputType, hinput, h⟩ := bind_eq_ok.mp h
    cases hopt : toOpt inputType with
    | none => simp [hopt] at h
    | some found =>
        obtain ⟨hne, rfl⟩ : inputType ≠ [] ∧ inputType = found := by
          unfold toOpt at hopt
          split at hopt
          · cases hopt
          · exact ⟨by assumption, Option.some.inj hopt⟩
        simp only [hopt] at h
        obtain ⟨rawWitness, hraw, h⟩ := bind_eq_ok.mp h
        obtain ⟨proposalWitness, hverify, h⟩ := bind_eq_ok.mp h
        obtain ⟨proof, hproof, h⟩ := bind_eq_ok.mp h
        obtain ⟨publicValues, hvalues, h⟩ := bind_eq_ok.mp h
        obtain ⟨cellData, hdata, h⟩ := bind_eq_ok.mp h
        obtain ⟨proposal, hproposal, h⟩ := bind_eq_ok.mp h
        obtain ⟨hproposalEq, h⟩ := guard_eq_ok.mp h
        obtain ⟨startHeader, hstart, h⟩ := bind_eq_ok.mp h
        obtain ⟨endHeader, hend, h⟩ := bind_eq_ok.mp h
        obtain ⟨startHash, hstartHash, h⟩ := bind_eq_ok.mp h
        obtain ⟨hstartEq, h⟩ := guard_eq_ok.mp h
        obtain ⟨endHash, hendHash, h⟩ := bind_eq_ok.mp h
        obtain ⟨hendEq, h⟩ := guard_eq_ok.mp h
        obtain ⟨valuesScript, hscript, h⟩ := bind_eq_ok.mp h
        obtain ⟨hscriptEq, h⟩ := guard_eq_ok.mp h
        obtain ⟨passed, hpassed, h⟩ := bind_eq_ok.mp h
        obtain ⟨hpassedEq, h⟩ := guard_eq_ok.mp h
        obtain ⟨hplonk, -⟩ := guard_eq_ok.mp h
        obtain ⟨hverified, rfl⟩ := fromSlice_eq_ok.mp (orExit_eq_ok.mp hverify)
        obtain ⟨cell, hcell, hload⟩ := loadAt_eq_ok.mp (orExit_eq_ok.mp hdata)
        obtain rfl : cell.data = cellData := Except.ok.inj hload
        refine ⟨hout, rawWitness, proof, publicValues, cell, startHeader, endHeader,
          ⟨hverified, witness, inputType, orExit_eq_ok.mp hwitness, orPanic_eq_ok.mp hinput, hne,
            orPanic_eq_ok.mp hraw⟩, orPanic_eq_ok.mp hproof, orPanic_eq_ok.mp hvalues, hcell,
          orExit_eq_ok.mp hstart, orExit_eq_ok.mp hend, ⟨?_, ?_, ?_, ?_, ?_⟩, by simpa using hplonk⟩
        · rw [orPanic_eq_ok.mp hproposal, not_not.mp hproposalEq]
        · rw [orPanic_eq_ok.mp hstartHash, not_not.mp hstartEq]
        · rw [orPanic_eq_ok.mp hendHash, not_not.mp hendEq]
        · rw [orPanic_eq_ok.mp hscript, not_not.mp hscriptEq]
        · rw [orPanic_eq_ok.mp hpassed, not_not.mp hpassedEq]
  · rintro ⟨-, proposalWitness, proof, publicValues, cell, startHeader, endHeader,
      ⟨hverified, witness, inputType, hwitness, hinput, hne, hraw⟩, hproof, hvalues, hcell, hstart,
      hend, hvouches, hplonk⟩
    have hopt : toOpt inputType = some inputType := if_neg hne
    have hverify : fromSlice ProposalWitnessReader.verify proposalWitness = .ok proposalWitness :=
      fromSlice_eq_ok.mpr ⟨hverified, rfl⟩
    have hdata : loadAt (group script rtx.inputs) 0 Cell.loadData = .ok cell.data :=
      loadAt_eq_ok.mpr ⟨cell, hcell, rfl⟩
    simp only [verifySettlement, hwitness, hinput, hopt, hraw, hverify, hproof, hvalues, hdata,
      hstart, hend, hvouches.proposal, hvouches.start_hash, hvouches.end_hash, hvouches.script_eq,
      hvouches.passed, hplonk, orExit, orPanic, ok_bind, ne_eq, not_true_eq_false, if_false]
    rfl

/-- A creation is checked without a panic. -/
theorem noPanic_verifyCreation : NoPanic (verifyCreation ext rtx script args) := by
  refine NoPanic.guard fun _ => NoPanic.bind (queryCount_typeHash _ ▸ NoPanic.ok _) fun _ _ =>
    NoPanic.guard fun _ => NoPanic.bind (NoPanic.orExit _ _) fun _ _ =>
    NoPanic.bind (NoPanic.orExit _ _) fun _ _ => ?_
  exact NoPanic.ok _

/-- A settlement is checked without a panic. -/
theorem noPanic_verifySettlement : NoPanic (verifySettlement ext rtx script args) := by
  refine NoPanic.bind (NoPanic.orExit _ _) fun witness hwitness => ?_
  obtain ⟨inputType, hinput, hcontent⟩ := inputType_of_load (orExit_eq_ok.mp hwitness)
  refine NoPanic.bind (NoPanic.orPanic ⟨_, hinput⟩) fun inputType' hinput' => ?_
  obtain rfl := Except.ok.inj (hinput.symm.trans (orPanic_eq_ok.mp hinput'))
  by_cases hne : inputType = []
  · rw [show toOpt inputType = none from if_pos hne]
    exact NoPanic.exit _
  · rw [show toOpt inputType = some inputType from if_neg hne]
    refine NoPanic.bind (NoPanic.orPanic (hcontent hne)) fun rawWitness _ => ?_
    refine NoPanic.bind (NoPanic.orExit _ _) fun proposalWitness hverify => ?_
    obtain ⟨hverified, rfl⟩ := fromSlice_eq_ok.mp (orExit_eq_ok.mp hverify)
    obtain ⟨hproof, values, hvalues, hvaluesOk⟩ := witness_of_verify hverified
    obtain ⟨hproposal, hstart, hend, hscript, hpassed⟩ := values_of_verify hvaluesOk
    refine NoPanic.bind (NoPanic.orPanic hproof) fun _ _ => ?_
    refine NoPanic.bind (NoPanic.orPanic ⟨_, hvalues⟩) fun values' hvalues' => ?_
    obtain rfl := Except.ok.inj (hvalues.symm.trans (orPanic_eq_ok.mp hvalues'))
    refine NoPanic.bind (NoPanic.orExit _ _) fun _ _ => ?_
    refine NoPanic.bind (NoPanic.orPanic hproposal) fun _ _ => NoPanic.guard fun _ => ?_
    refine NoPanic.bind (NoPanic.orExit _ _) fun _ _ => ?_
    refine NoPanic.bind (NoPanic.orExit _ _) fun _ _ => ?_
    refine NoPanic.bind (NoPanic.orPanic hstart) fun _ _ => NoPanic.guard fun _ => ?_
    refine NoPanic.bind (NoPanic.orPanic hend) fun _ _ => NoPanic.guard fun _ => ?_
    refine NoPanic.bind (NoPanic.orPanic hscript) fun _ _ => NoPanic.guard fun _ => ?_
    exact NoPanic.bind (NoPanic.orPanic hpassed) fun _ _ => NoPanic.guard fun _ =>
      NoPanic.guard fun _ => NoPanic.ok _

/-- The proposal type script does not panic. -/
theorem noPanic_run : NoPanic (run ext rtx script) := by
  refine NoPanic.bind (NoPanic.orExit _ _) fun loaded hload => ?_
  obtain ⟨hscript, rfl⟩ := checkScript_eq_ok.mp (orExit_eq_ok.mp hload)
  refine NoPanic.bind (NoPanic.orPanic (scriptArgs_ok hscript)) fun args _ =>
    NoPanic.guard fun _ => ?_
  simp only [queryAny_typeHash, ok_bind]
  refine NoPanic.guard fun _ => ?_
  split
  · exact noPanic_verifyCreation
  · exact noPanic_verifySettlement

/-- An accepting run has made every check. -/
theorem accepts_of_run (h : run ext rtx script = .ok ()) : Accepts ext rtx script := by
  obtain ⟨loaded, hload, h⟩ := bind_eq_ok.mp h
  obtain ⟨hscript, rfl⟩ := checkScript_eq_ok.mp (orExit_eq_ok.mp hload)
  obtain ⟨args, hargs, h⟩ := bind_eq_ok.mp h
  obtain ⟨hlen, h⟩ := guard_eq_ok.mp h
  simp only [queryAny_typeHash, ok_bind] at h
  obtain ⟨hsides, h⟩ := guard_eq_ok.mp h
  refine ⟨hscript, args, orPanic_eq_ok.mp hargs, not_not.mp hlen, ?_⟩
  by_cases hout : group script rtx.tx.outputs = []
  · rw [if_neg (by simp [hout])] at h
    exact Or.inr ((verifySettlement_eq_ok hout).mp h)
  · rw [if_pos (by simp [hout])] at h
    exact Or.inl ((verifyCreation_eq_ok (by simpa [hout] using hsides)).mp h)

/-- A transaction that meets every condition is accepted. -/
theorem run_of_accepts (h : Accepts ext rtx script) : run ext rtx script = .ok () := by
  obtain ⟨hscript, args, hargs, hlen, hkind⟩ := h
  have hload : checkScript script = .ok script := checkScript_eq_ok.mpr ⟨hscript, rfl⟩
  simp only [run, hload, hargs, orExit, orPanic, ok_bind, hlen, ne_eq, not_true_eq_false,
    if_false, queryAny_typeHash]
  rcases hkind with hcreates | hsettles
  · obtain ⟨cell, hcell, -⟩ := hcreates.output
    rw [if_neg (by simp [hcreates.no_input]), if_pos (by simp [hcell])]
    exact (verifyCreation_eq_ok hcreates.no_input).mpr hcreates
  · rw [if_neg (by simp [hsettles.no_output]), if_neg (by simp [hsettles.no_output])]
    exact (verifySettlement_eq_ok hsettles.no_output).mpr hsettles

/-- **Exactly what the proposal script accepts.**  A run never panics, whatever
the cells, and it accepts the creations and the settlements, and nothing else. -/
theorem proposal_run_exact (ext : External) (rtx : ResolvedTx) (script : Bytes) :
    NoPanic (run ext rtx script) ∧ (run ext rtx script = .ok () ↔ Accepts ext rtx script) :=
  ⟨noPanic_run, accepts_of_run, run_of_accepts⟩

end ProposalTypeScript

end CkbVote
