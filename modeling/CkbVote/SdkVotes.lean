import CkbVote.ChainVotes
import CkbVote.GeneratedCount
import CkbVote.SdkTransactions

/-!
# The votes of the SDK

`createVote` lays out the cell deps so that entry `i` of `dao_index` is `2 + i`:
the contract, the proposal, the deposits.  `addCellDeps` drops a dep that is
there already, so the layout holds as long as the out points differ.
`createVote_accepted` says that the vote script then accepts the transaction,
and that the tally reads one vote of the signer, for all that the signer has
deposited.
-/

namespace CkbVote

open Octets Molecule VoteTypeScript

namespace Sdk

/-! ## Cell deps and completions -/

section Deps

variable {tx : Transaction} {dep : CellDep} {live : Live} {lock : Bytes}

@[simp] theorem withCellDep_inputs (dep : CellDep) : (tx.withCellDep dep).inputs = tx.inputs := by
  rw [Transaction.withCellDep]
  split_ifs <;> rfl

@[simp] theorem withCellDep_outputs (dep : CellDep) :
    (tx.withCellDep dep).outputs = tx.outputs := by
  rw [Transaction.withCellDep]
  split_ifs <;> rfl

/-- A cell dep that is new is put at the end. -/
theorem withCellDep_new (h : dep ∉ tx.cellDeps) :
    tx.withCellDep dep = { tx with cellDeps := tx.cellDeps ++ [dep] } := if_neg h

/-- Deps with different out points are added in order. -/
theorem foldl_withCellDep {deps : List (OutPoint × Cell)}
    (h : (tx.cellDeps.map CellDep.outPoint ++ deps.map Prod.fst).Nodup) :
    deps.foldl (fun tx p => tx.withCellDep (cellDepFromOutPoint p.1)) tx =
      { tx with cellDeps := tx.cellDeps ++ deps.map fun p => cellDepFromOutPoint p.1 } := by
  induction deps generalizing tx with
  | nil => simp
  | cons p deps ih =>
      have hnew : cellDepFromOutPoint p.1 ∉ tx.cellDeps := by
        intro hmem
        have hop : p.1 ∈ tx.cellDeps.map CellDep.outPoint := List.mem_map_of_mem hmem
        exact (List.disjoint_of_nodup_append h) hop (by simp)
      rw [List.foldl_cons, withCellDep_new hnew, ih (by simpa [cellDepFromOutPoint] using h)]
      simp

/-- Completing twice is completing. -/
theorem Completes.trans {tx' tx'' : Transaction} (h : Completes live lock tx tx')
    (h' : Completes live lock tx' tx'') : Completes live lock tx tx'' := by
  obtain ⟨added, hadded, hlive⟩ := h.inputs
  obtain ⟨added', hadded', hlive'⟩ := h'.inputs
  obtain ⟨change, hchange, htype⟩ := h.outputs
  obtain ⟨change', hchange', htype'⟩ := h'.outputs
  obtain ⟨deps, hdeps⟩ := h.cellDeps
  obtain ⟨deps', hdeps'⟩ := h'.cellDeps
  obtain ⟨more, hmore⟩ := h.witnesses
  obtain ⟨more', hmore'⟩ := h'.witnesses
  exact ⟨⟨added ++ added', by rw [hadded', hadded, List.append_assoc],
      fun input hinput => (List.mem_append.mp hinput).elim (hlive input) (hlive' input)⟩,
    ⟨change ++ change', by rw [hchange', hchange, List.append_assoc],
      fun cell hcell => (List.mem_append.mp hcell).elim (htype cell) (htype' cell)⟩,
    ⟨deps ++ deps', by rw [hdeps', hdeps, List.append_assoc]⟩,
    h'.headerDeps.trans h.headerDeps,
    ⟨more ++ more', by rw [hmore', hmore, List.append_assoc]⟩⟩

end Deps

/-! ## Scripts -/

section Scripts

variable {lib : Library} (hlib : lib.Documented)

/-- The byte of a hash type. -/
def HashType.byte : HashType → UInt8
  | .type => 1
  | .data => 0
  | .data1 => 2

/-- The name of a hash type is in the table. -/
theorem HashType.name_mem (hashType : HashType) :
    (hashType.name, hashType.byte) ∈ hashTypeNames := by
  cases hashType <;> decide

/-- The byte that a proposal records is the byte of the scripts. -/
theorem hashTypeToByte_name (hashType : HashType) :
    hashTypeToByte hashType.name = some hashType.byte.toNat := by
  cases hashType <;> decide

/-- The script of a contract. -/
def ScriptInfo.script (info : ScriptInfo) (args : Bytes) : Bytes :=
  Script.newBuilder info.codeHash.val [info.hashType.byte] args

/-- The script of a contract parses and reads as it was configured. -/
theorem ScriptInfo.script_fields (info : ScriptInfo) {args : Bytes} (hargs : args.length < 2 ^ 31) :
    ScriptReader.verify false (info.script args) = .ok () ∧
      ScriptReader.codeHash (info.script args) = .ok info.codeHash.val ∧
      ScriptReader.hashType (info.script args) = .ok [info.hashType.byte] ∧
      scriptArgs (info.script args) = .ok args :=
  TestTool.script_fields args info.codeHash.length_val rfl (by omega)

include hlib in
/-- `scriptFromInfo` returns the script with these args. -/
theorem scriptFromInfo_eq (info : ScriptInfo) {args : Bytes} (hargs : args.length < 2 ^ 31) :
    scriptFromInfo lib info args = some (info.script args) := by
  refine hlib.script_encode _ _ _ _ info.codeHash.length_val info.hashType.name_mem ?_
  rw [TestTool.length_script args info.codeHash.length_val rfl]
  omega

end Scripts

/-! ## The data of a vote -/

section Data

variable {indices : List Nat} {vote : UInt8} {amount : Nat}

theorem length_of_mem_entries {item : Bytes} (h : item ∈ indices.map (leBytes 2)) :
    item.length = 2 := by
  obtain ⟨n, -, rfl⟩ := List.mem_map.mp h
  exact length_leBytes 2 n

theorem length_vote (vote : UInt8) (amount : Nat) (indices : List Nat) :
    (Vote.newBuilder vote amount indices).length = 29 + 2 * indices.length := by
  have hitems : (indices.map (leBytes 2)).flatten.length = 2 * (indices.map (leBytes 2)).length :=
    length_flatten_of_length fun _ hitem => length_of_mem_entries hitem
  rw [Vote.newBuilder, length_build]
  simp only [List.flatten_cons, List.flatten_nil, List.length_append, buildFixVec, hitems,
    length_leBytes, List.length_cons, List.length_nil, List.length_map]
  omega

theorem entries_layout (h : indices.length < 2 ^ 32) :
    (buildFixVec (indices.map (leBytes 2))).length =
      4 + 2 * numberAt (buildFixVec (indices.map (leBytes 2))) 0 :=
  buildFixVec_layout (fun _ hitem => length_of_mem_entries hitem) (by rwa [List.length_map])

/-- The entries of a built `dao_index`. -/
theorem readRange_entries (hindices : ∀ n ∈ indices, n < 2 ^ 16)
    (hcount : indices.length < 2 ^ 32) :
    (FixVec.itemCount (buildFixVec (indices.map (leBytes 2))) >>= fun count =>
      readRange (daoIndexEntry (buildFixVec (indices.map (leBytes 2)))) count 0) = .ok indices := by
  have hlayout := entries_layout hcount
  have hitems : FixVec.items 2 (buildFixVec (indices.map (leBytes 2))) = indices.map (leBytes 2) :=
    fixVec_items_build (fun _ hitem => length_of_mem_entries hitem) (by rwa [List.length_map])
  rw [FixVec.itemCount_eq hlayout, ok_bind, readRange_eq_ok, hitems]
  refine ⟨(List.length_map _).symm, fun k hk => ?_⟩
  have hentry : leNat (leBytes 2 indices[k]) = indices[k] :=
    leNat_leBytes (hindices _ (List.getElem_mem hk))
  have hk' : k < (FixVec.items 2 (buildFixVec (indices.map (leBytes 2)))).length := by
    rwa [hitems, List.length_map]
  rw [Nat.zero_add, daoIndexEntry, FixVec.getUnchecked_eq hlayout hk', ok_bind]
  simp only [hitems, List.getElem_map]
  rw [fromLeBytes_ok (length_leBytes 2 _), hentry]

/-- Vote data parses and reads as what it was built from. -/
theorem vote_fields (hamount : amount < 2 ^ 64) (hindices : ∀ n ∈ indices, n < 2 ^ 16)
    (hsize : 29 + 2 * indices.length < 2 ^ 32) :
    VoteReader.verify false (Vote.newBuilder vote amount indices) = .ok () ∧
      readBallot (Vote.newBuilder vote amount indices) = .ok (vote, amount) ∧
      daoIndices (Vote.newBuilder vote amount indices) = .ok indices := by
  have hlen := length_vote vote amount indices
  have hentries := readRange_entries hindices (by omega)
  have hlayout := @entries_layout indices (by omega)
  rw [Vote.newBuilder] at hlen ⊢
  generalize buildFixVec (indices.map (leBytes 2)) = daoIndex at hlen hentries hlayout ⊢
  have hbuild : (build [[vote], leBytes 8 amount, daoIndex]).length < 2 ^ 32 := by omega
  have hvote : VoteReader.vote (build [[vote], leBytes 8 amount, daoIndex]) = .ok [vote] :=
    field_build (k := 0) hbuild (by simp)
  have hamountField : VoteReader.amount (build [[vote], leBytes 8 amount, daoIndex]) =
      .ok (leBytes 8 amount) := field_build (k := 1) hbuild (by simp)
  have hdao : VoteReader.daoIndex (build [[vote], leBytes 8 amount, daoIndex]) = .ok daoIndex :=
    field_build (k := 2) hbuild (by simp)
  have hnumber : leNat (leBytes 8 amount) = amount := leNat_leBytes (by omega)
  refine ⟨verifyTable_build hbuild (by simp) ?_, ?_, ?_⟩
  · have hbyte : ByteReader.verify false [vote] = .ok () := verifyFixed_eq_ok.mpr rfl
    have huint64 : Uint64Reader.verify false (leBytes 8 amount) = .ok () :=
      verifyFixed_eq_ok.mpr (length_leBytes 8 amount)
    have hvec : Uint16VecReader.verify false daoIndex = .ok () := verifyFixVec_eq_ok.mpr hlayout
    exact .cons hbyte (.cons huint64 (.cons hvec .nil))
  · rw [readBallot, hvote, ok_bind, firstByte, ok_bind, hamountField, ok_bind,
      fromLeBytes_ok (length_leBytes 8 amount), hnumber, ok_bind]
  · rw [daoIndices, hdao, ok_bind]
    exact hentries

end Data

/-! ## What `createVote` builds -/

section Create

variable [Blake2b] {lib : Library} {wallet : Wallet} {config : NetworkConfig}
  {params : CreateVoteParams} {live : Live} {lock : Bytes} {tx : Transaction}

def totalDaoCapacity (wallet : Wallet) (lock : Bytes) : Nat :=
  ((daoCells wallet lock).map fun p => p.2.capacity).sum

def daoIndexes (wallet : Wallet) (lock : Bytes) : List Nat :=
  (List.range (daoCells wallet lock).length).map fun i => 2 + i

/-- The out points of the first cell deps: contract, proposal, deposits. -/
def layout (wallet : Wallet) (config : NetworkConfig) (params : CreateVoteParams) (lock : Bytes) :
    List OutPoint :=
  config.voteTypeScript.outPoint :: params.proposalOutPoint :: (daoCells wallet lock).map Prod.fst

def Direction.byte : Direction → UInt8
  | .yes => 1
  | .no => 0

/-- The vote cell of the owner of the lock. -/
def voteCellOf (lib : Library) (wallet : Wallet) (config : NetworkConfig)
    (params : CreateVoteParams) (lock proposalScript : Bytes) : Cell :=
  cellOutput lib 0 lock (some (config.voteTypeScript.script (blake160 proposalScript).val))
    (Vote.newBuilder params.vote.byte (totalDaoCapacity wallet lock) (daoIndexes wallet lock))

/-- What a vote needs: deps with different out points, indices below `2 ^ 16`,
and deposits of some, but less than `2 ^ 64`, shannon. -/
structure VoteReady (wallet : Wallet) (config : NetworkConfig) (params : CreateVoteParams)
    (lock : Bytes) : Prop where
  layout : (layout wallet config params lock).Nodup
  count : (daoCells wallet lock).length + 2 ≤ 2 ^ 16
  total_pos : 0 < totalDaoCapacity wallet lock
  total_lt : totalDaoCapacity wallet lock < 2 ^ 64

/-- A transaction with one vote cell, paid for by the signer. -/
structure VoteBuilt (lib : Library) (wallet : Wallet) (config : NetworkConfig)
    (params : CreateVoteParams) (live : Live) (lock proposalScript : Bytes) (tx : Transaction) :
    Prop where
  proposal : ∃ cell, live params.proposalOutPoint = some cell ∧ cell.type_ = some proposalScript
  deposits : daoCells wallet lock ≠ []
  cellDeps : ∃ deps,
    tx.cellDeps = (layout wallet config params lock).map cellDepFromOutPoint ++ deps
  inputs_ne : tx.inputs ≠ []
  inputs : ∀ input ∈ tx.inputs,
    ∃ cell, live input.previousOutput = some cell ∧ cell.lock = lock ∧ cell.type_ = none
  outputs : ∃ change,
    tx.outputs = voteCellOf lib wallet config params lock proposalScript :: change ∧
    ∀ cell ∈ change, cell.type_ = none

omit [Blake2b] in
/-- The indices fit into 16 bits. -/
theorem lt_of_mem_daoIndexes (hready : VoteReady wallet config params lock) {n : Nat}
    (h : n ∈ daoIndexes wallet lock) : n < 2 ^ 16 := by
  obtain ⟨i, hi, rfl⟩ := List.mem_map.mp h
  have hcount := hready.count
  rw [List.mem_range] at hi
  omega

omit [Blake2b] in
/-- The codec encodes the vote as built. -/
theorem voteData_eq (hlib : lib.Documented) (hready : VoteReady wallet config params lock) :
    (voteCodec lib).encode (.object [("vote", .num (if params.vote = .yes then 1 else 0)),
      ("amount", .num (totalDaoCapacity wallet lock)),
      ("daoIndex", lib.array (daoIndexes wallet lock))]) =
      some (Vote.newBuilder params.vote.byte (totalDaoCapacity wallet lock)
        (daoIndexes wallet lock)) := by
  have hvote : lib.uint8.encode (.num (if params.vote = .yes then 1 else 0)) =
      some [params.vote.byte] := by
    cases params.vote
    · exact hlib.uint8_encode 1 (by decide)
    · exact hlib.uint8_encode 0 (by decide)
  have hamount := hlib.uint64_encode _ hready.total_lt
  have hready_count := hready.count
  have hcount : (daoIndexes wallet lock).length = (daoCells wallet lock).length := by
    simp [daoIndexes]
  have hdao := hlib.uint16Vec_encode _ (by omega) fun n hn => lt_of_mem_daoIndexes hready hn
  have hfields : List.Forall₂ (fun field pair => field.2.encode pair.1 = some pair.2)
      [("vote", lib.uint8), ("amount", lib.uint64), ("daoIndex", lib.uint16Vec)]
      [(.num (if params.vote = .yes then 1 else 0), [params.vote.byte]), (.num _, _), (_, _)] :=
    .cons hvote (.cons hamount (.cons hdao .nil))
  have hsize : (Vote.newBuilder params.vote.byte (totalDaoCapacity wallet lock)
      (daoIndexes wallet lock)).length < 2 ^ 32 := by
    rw [length_vote]
    omega
  exact hlib.ccc.table.encode_zip (by simp) hfields hsize

omit [Blake2b] in
/-- The deps of a vote are added in the planned order. -/
theorem withCellDep_layout (hready : VoteReady wallet config params lock)
    (hnone : tx.cellDeps = []) :
    (daoCells wallet lock).foldl (fun tx p => tx.withCellDep (cellDepFromOutPoint p.1))
      ((tx.withCellDep (cellDepFromInfo config.voteTypeScript)).withCellDep
        (cellDepFromOutPoint params.proposalOutPoint)) =
      { tx with cellDeps := (layout wallet config params lock).map cellDepFromOutPoint } := by
  obtain ⟨hcontract, hproposal, hdaos⟩ := by simpa [layout] using hready.layout
  have hfirst : tx.withCellDep (cellDepFromInfo config.voteTypeScript) =
      { tx with cellDeps := [cellDepFromInfo config.voteTypeScript] } := by
    rw [withCellDep_new (by simp [hnone]), hnone, List.nil_append]
  have hsecond : ({ tx with cellDeps := [cellDepFromInfo config.voteTypeScript] } :
      Transaction).withCellDep (cellDepFromOutPoint params.proposalOutPoint) =
      { tx with cellDeps := [cellDepFromInfo config.voteTypeScript,
        cellDepFromOutPoint params.proposalOutPoint] } := by
    rw [withCellDep_new]
    · rfl
    · simpa [cellDepFromInfo, cellDepFromOutPoint] using Ne.symm hcontract.1
  rw [hfirst, hsecond, foldl_withCellDep]
  · simp [layout, cellDepFromInfo, cellDepFromOutPoint]
  · simpa [layout, cellDepFromInfo, cellDepFromOutPoint] using hready.layout

omit [Blake2b] in
/-- Behind a list of single cells as deps, the script sees those cells. -/
theorem resolved_dep {headerOf : Hash32 → Option Bytes} {tx : ChainTx} {rtx : ResolvedTx}
    {ops : List OutPoint} {rest : List CellDep} (hresolve : resolve live headerOf tx = some rtx)
    (hdeps : tx.cellDeps = ops.map cellDepFromOutPoint ++ rest) {i : Nat} {op : OutPoint}
    (hi : ops[i]? = some op) :
    ∃ cell, live op = some cell ∧ rtx.cellDeps[i]? = some (op, cell) := by
  have hresolves := resolves_of_resolve hresolve
  obtain ⟨expanded, hexpanded, hfst⟩ := hresolves.cellDeps
  obtain ⟨hlt, -⟩ := List.getElem?_eq_some_iff.mp hi
  have hcode : ∀ k ≤ i, ∀ dep, tx.cellDeps[k]? = some dep → dep.depType = 0 := by
    intro k hk dep hdep
    rw [hdeps, List.getElem?_append_left (by simp; omega), List.getElem?_map,
      Option.map_eq_some_iff] at hdep
    obtain ⟨op, -, rfl⟩ := hdep
    rfl
  have hop : (rtx.cellDeps.map Prod.fst)[i]? = some op := by
    rw [hfst, expanded_getElem? hexpanded hcode, hdeps, List.map_append, List.getElem?_append_left]
    · simp [hi, cellDepFromOutPoint]
    · simpa using hlt
  rw [List.getElem?_map, Option.map_eq_some_iff] at hop
  obtain ⟨dep, hdep, rfl⟩ := hop
  exact ⟨dep.2, hresolves.live_dep dep (List.mem_of_getElem? hdep), hdep⟩

/-- What `createVote` returns, once the proposal cell that the wallet has read is
a live one. -/
theorem assembled_of_createVote (hlib : lib.Documented) (hwallet : wallet.Documented lib live lock)
    (hready : VoteReady wallet config params lock)
    (h : createVote lib wallet config params = some tx) :
    ∃ proposalCell proposalScript, wallet.getCell params.proposalOutPoint = some proposalCell ∧
      proposalCell.type_ = some proposalScript ∧
      (∃ deps, tx.cellDeps = (layout wallet config params lock).map cellDepFromOutPoint ++ deps) ∧
      (live params.proposalOutPoint = some proposalCell →
        VoteBuilt lib wallet config params live lock proposalScript tx) := by
  simp only [createVote, hlib.addCellDeps_eq, hlib.cellOutputFrom_eq, Option.bind_eq_bind,
    Option.bind_eq_some_iff] at h
  obtain ⟨proposalCell, hcell, proposalScript, htype, voteScript, hscript, signerLock, hlock,
    h⟩ := h
  obtain rfl : signerLock = lock := Option.some.inj (hlock.symm.trans hwallet.lock_eq)
  by_cases hdeposits : daoCells wallet signerLock = []
  · simp [hdeposits] at h
  · rw [if_neg hdeposits, Option.bind_eq_some_iff] at h
    obtain ⟨voteData, hdata, h⟩ := h
    obtain ⟨filled, hfilled, hfee⟩ := Option.bind_eq_some_iff.mp h
    obtain rfl := Option.some.inj (hscript.symm.trans (scriptFromInfo_eq hlib _ (by simp)))
    obtain rfl := Option.some.inj (hdata.symm.trans (voteData_eq hlib hready))
    rw [withCellDep_layout hready rfl] at hfilled
    obtain ⟨hcompletes, hpaid⟩ := hwallet.inputs_complete _ _ hfilled
    have hall := hcompletes.trans (hwallet.fee_completes _ _ hfee)
    obtain ⟨added, hadded, hlive⟩ := hall.inputs
    obtain ⟨more, hmore, -⟩ := (hwallet.fee_completes _ _ hfee).inputs
    have hne : tx.inputs ≠ [] := by
      rw [hmore]
      exact List.append_ne_nil_of_left_ne_nil (hpaid (by simp)) _
    refine ⟨proposalCell, proposalScript, hcell, htype, hall.cellDeps, fun hproposal =>
      ⟨⟨proposalCell, hproposal, htype⟩, hdeposits, hall.cellDeps, hne, ?_, ?_⟩⟩
    · rw [hadded]
      exact hlive
    · obtain ⟨change, hchange, htypes⟩ := hall.outputs
      exact ⟨change, hchange, htypes⟩

/-- **What `createVote` returns** for a live proposal. -/
theorem voteBuilt_of_live {cell : Cell} (hlib : lib.Documented)
    (hwallet : wallet.Documented lib live lock) (hready : VoteReady wallet config params lock)
    (h : createVote lib wallet config params = some tx)
    (hlive : live params.proposalOutPoint = some cell) :
    ∃ proposalScript, VoteBuilt lib wallet config params live lock proposalScript tx := by
  obtain ⟨proposalCell, proposalScript, hcell, -, -, hbuilt⟩ :=
    assembled_of_createVote hlib hwallet hready h
  obtain rfl := Option.some.inj (hcell.symm.trans (hwallet.getCell_eq _ _ hlive))
  exact ⟨proposalScript, hbuilt hlive⟩

/-- A transaction that resolves names a live proposal. -/
theorem voteBuilt_of_createVote {headerOf : Hash32 → Option Bytes} {hash : Hash32}
    {rtx : ResolvedTx} (hlib : lib.Documented) (hwallet : wallet.Documented lib live lock)
    (hready : VoteReady wallet config params lock)
    (h : createVote lib wallet config params = some tx)
    (hresolve : resolve live headerOf (tx.sealed hash) = some rtx) :
    ∃ proposalScript, VoteBuilt lib wallet config params live lock proposalScript tx := by
  obtain ⟨_, _, -, -, ⟨deps, hdeps⟩, -⟩ := assembled_of_createVote hlib hwallet hready h
  obtain ⟨cell, hlive, -⟩ := resolved_dep hresolve hdeps
    (show (layout wallet config params lock)[1]? = some params.proposalOutPoint from rfl)
  exact voteBuilt_of_live hlib hwallet hready h hlive

/-! ## Acceptance -/

omit [Blake2b] in
/-- A deposit that the wallet found. -/
theorem deposit_of_mem (hwallet : wallet.Documented lib live lock) {dep : OutPoint × Cell}
    (h : dep ∈ daoCells wallet lock) : live dep.1 = some dep.2 ∧ IsDeposit lock dep.2 := by
  obtain ⟨hfound, -⟩ := List.mem_filter.mp h
  rw [hwallet.nervosDao_eq] at hfound
  obtain ⟨hlive, hlock, htype⟩ := (hwallet.find_mem _ _ dep.1 dep.2).mp hfound
  refine ⟨hlive, hlock, daoType, htype, ?_⟩
  decide +kernel

/-- The wallet's deposits are all the live deposits of the lock, and no other
cells of the Nervos DAO, which have 8 bytes of data. -/
def FindsDeposits (wallet : Wallet) (live : Live) (lock : Bytes) : Prop :=
  ∀ op cell, cell.data.length = 8 →
    ((op, cell) ∈ daoCells wallet lock ↔ live op = some cell ∧ IsDeposited lock cell)

omit [Blake2b] in
/-- The wallet finds all live deposits of its lock. -/
theorem findsDeposits (hwallet : wallet.Documented lib live lock) :
    FindsDeposits wallet live lock := by
  intro op cell hlength
  rw [daoCells, List.mem_filter, hwallet.nervosDao_eq, hwallet.find_mem]
  constructor
  · rintro ⟨⟨hlive, hlock, htype⟩, hdeposited⟩
    exact ⟨hlive, hlock, htype, (hwallet.isNervosDao_iff cell htype hlength).mp hdeposited⟩
  · rintro ⟨hlive, hlock, htype, hdata⟩
    exact ⟨⟨hlive, hlock, htype⟩, (hwallet.isNervosDao_iff cell htype hlength).mpr hdata⟩

section Built

variable {headerOf : Hash32 → Option Bytes} {hash : Hash32} {rtx : ResolvedTx}
  {proposalScript : Bytes}

/-- The cells behind the entries of `dao_index` are the deposits. -/
theorem cellDeps_of_built (hwallet : wallet.Documented lib live lock)
    (hbuilt : VoteBuilt lib wallet config params live lock proposalScript tx)
    (hresolve : resolve live headerOf (tx.sealed hash) = some rtx) :
    (daoIndexes wallet lock).map (fun i => rtx.cellDeps[i]?) = (daoCells wallet lock).map some := by
  obtain ⟨rest, hdeps⟩ := hbuilt.cellDeps
  refine List.ext_getElem? fun i => ?_
  rw [daoIndexes, List.map_map, List.getElem?_map, List.getElem?_map]
  by_cases hi : i < (daoCells wallet lock).length
  · have hop : (layout wallet config params lock)[2 + i]? = some ((daoCells wallet lock)[i]).1 := by
      rw [Nat.add_comm]
      simp [layout, hi]
    obtain ⟨cell, hlive, hdep⟩ := resolved_dep hresolve hdeps hop
    obtain ⟨hlive', -⟩ := deposit_of_mem hwallet (List.getElem_mem hi)
    obtain rfl := Option.some.inj (hlive.symm.trans hlive')
    simp [hi, hdep]
  · have hlen := Nat.le_of_not_lt hi
    simp [hlen]

omit [Blake2b] in
/-- The vote parses strictly and is read back. -/
theorem voteData_fields (hready : VoteReady wallet config params lock) (vote : Direction) :
    VoteReader.verify false (Vote.newBuilder vote.byte (totalDaoCapacity wallet lock)
        (daoIndexes wallet lock)) = .ok () ∧
      readBallot (Vote.newBuilder vote.byte (totalDaoCapacity wallet lock)
        (daoIndexes wallet lock)) = .ok (vote.byte, totalDaoCapacity wallet lock) ∧
      daoIndices (Vote.newBuilder vote.byte (totalDaoCapacity wallet lock)
        (daoIndexes wallet lock)) = .ok (daoIndexes wallet lock) := by
  have hcount := hready.count
  refine vote_fields hready.total_lt (fun n hn => lt_of_mem_daoIndexes hready hn) ?_
  rw [daoIndexes, List.length_map, List.length_range]
  omega

/-- What the script sums. -/
theorem summed_of_built (hwallet : wallet.Documented lib live lock)
    (hready : VoteReady wallet config params lock)
    (hbuilt : VoteBuilt lib wallet config params live lock proposalScript tx)
    (hresolve : resolve live headerOf (tx.sealed hash) = some rtx) :
    Summed rtx (voteCellOf lib wallet config params lock proposalScript).data
      (daoIndexes wallet lock) (daoCells wallet lock) := by
  obtain ⟨-, hballot, hindices⟩ := voteData_fields hready params.vote
  refine ⟨hindices, cellDeps_of_built hwallet hbuilt hresolve, _, hballot, ?_⟩
  have hsum := foldl_saturatingAdd ((daoCells wallet lock).map fun p => p.2.capacity) 0
  have hlt : ((daoCells wallet lock).map fun p => p.2.capacity).sum ≤ maxU64 :=
    Nat.le_of_lt_succ hready.total_lt
  rw [Nat.zero_min, Nat.zero_add, min_eq_left hlt] at hsum
  exact hsum.symm

/-- A built vote meets every condition of the vote type script. -/
theorem castsVote_of_built (hwallet : wallet.Documented lib live lock)
    (hready : VoteReady wallet config params lock)
    (hbuilt : VoteBuilt lib wallet config params live lock proposalScript tx)
    (hresolve : resolve live headerOf (tx.sealed hash) = some rtx) :
    CastsVote rtx (voteCellOf lib wallet config params lock proposalScript)
      (blake160 proposalScript).val := by
  have hresolves := resolves_of_resolve hresolve
  obtain ⟨hvote, hballot, -⟩ := voteData_fields hready params.vote
  refine ⟨?_, ?_, hvote, ⟨_, _, hballot, ?_, hready.total_pos.ne'⟩,
    ⟨_, _, summed_of_built hwallet hready hbuilt hresolve,
      fun dep hdep => (deposit_of_mem hwallet hdep).2⟩⟩
  · obtain ⟨rest, hdeps⟩ := hbuilt.cellDeps
    obtain ⟨cell, hlive, htype⟩ := hbuilt.proposal
    obtain ⟨cell', hlive', hdep⟩ := resolved_dep hresolve hdeps
      (show (layout wallet config params lock)[1]? = some params.proposalOutPoint from rfl)
    obtain rfl := Option.some.inj (hlive.symm.trans hlive')
    exact ⟨_, List.mem_of_getElem? hdep, proposalScript, htype, rfl⟩
  · obtain ⟨input, hinput⟩ := List.exists_mem_of_ne_nil _ hbuilt.inputs_ne
    obtain ⟨cell, hlive, hlock, -⟩ := hbuilt.inputs input hinput
    have hmem : some cell ∈ rtx.inputs.map some := by
      rw [← hresolves.inputs, ← hlive]
      exact List.mem_map_of_mem hinput
    obtain ⟨cell', hcell', heq⟩ := List.mem_map.mp hmem
    obtain rfl := Option.some.inj heq
    exact ⟨cell', hcell', hlock⟩
  · cases params.vote
    · exact Or.inr rfl
    · exact Or.inl rfl

/-- A cell under a script, in front of cells without type scripts, is a group. -/
theorem group_single {script : Bytes} {cell : Cell} {cells : List Cell}
    (htype : cell.type_ = some script) (hcells : ∀ cell ∈ cells, cell.type_ = none) :
    group script (cell :: cells) = [cell] := by
  have hrest : group script cells = [] := by
    refine List.filter_eq_nil_iff.mpr fun other hother => ?_
    simp [Cell.typeHash, hcells other hother]
  rw [group, List.filter_cons_of_pos (by simp [Cell.typeHash, htype])]
  exact congrArg (cell :: ·) hrest

omit [Blake2b] in
/-- Inputs that are all without type scripts. -/
theorem type_of_input {tx : ChainTx}
    (hinputs : ∀ input ∈ tx.inputs, ∃ cell, live input.previousOutput = some cell ∧
      cell.type_ = none)
    (hresolve : resolve live headerOf tx = some rtx) {cell : Cell} (hcell : cell ∈ rtx.inputs) :
    cell.type_ = none := by
  have hmem : some cell ∈ tx.inputs.map fun input => live input.previousOutput := by
    rw [(resolves_of_resolve hresolve).inputs]
    exact List.mem_map_of_mem hcell
  obtain ⟨input, hinput, hlive⟩ := List.mem_map.mp hmem
  obtain ⟨cell', hlive', htype⟩ := hinputs input hinput
  obtain rfl := Option.some.inj (hlive.symm.trans hlive')
  exact htype

/-- The vote script verifies and is read back. -/
theorem voteScript_fields (config : NetworkConfig) (proposalScript : Bytes) :
    ScriptReader.verify false (config.voteTypeScript.script (blake160 proposalScript).val) =
      .ok () ∧ ScriptReader.codeHash (config.voteTypeScript.script (blake160 proposalScript).val) =
        .ok config.voteTypeScript.codeHash.val ∧
      ScriptReader.hashType (config.voteTypeScript.script (blake160 proposalScript).val) =
        .ok [config.voteTypeScript.hashType.byte] ∧
      scriptArgs (config.voteTypeScript.script (blake160 proposalScript).val) =
        .ok (blake160 proposalScript).val :=
  config.voteTypeScript.script_fields (by simp)

/-- The vote script accepts the transaction. -/
theorem run_of_built (hwallet : wallet.Documented lib live lock)
    (hready : VoteReady wallet config params lock)
    (hbuilt : VoteBuilt lib wallet config params live lock proposalScript tx)
    (hresolve : resolve live headerOf (tx.sealed hash) = some rtx) (hwell : rtx.WellFormed) :
    VoteTypeScript.run rtx (config.voteTypeScript.script (blake160 proposalScript).val) =
      .ok () := by
  obtain ⟨hscript, -, -, hargs⟩ := voteScript_fields config proposalScript
  obtain ⟨change, houtputs, htypes⟩ := hbuilt.outputs
  have hgroup : group (config.voteTypeScript.script (blake160 proposalScript).val) rtx.tx.outputs =
      [voteCellOf lib wallet config params lock proposalScript] := by
    rw [(resolves_of_resolve hresolve).tx_eq, show (tx.sealed hash).outputs = tx.outputs from rfl,
      houtputs]
    exact group_single rfl htypes
  exact VoteTypeScript.run_of_accepts hwell ⟨hscript, _, hargs, FixedBytes.length_val _,
    Or.inr ⟨_, hgroup, castsVote_of_built hwallet hready hbuilt hresolve⟩⟩

/-- The selected deps are single cells. -/
theorem codeDeps_of_built
    (hbuilt : VoteBuilt lib wallet config params live lock proposalScript tx) :
    CodeDeps (tx.sealed hash) (daoIndexes wallet lock) := by
  obtain ⟨rest, hdeps⟩ := hbuilt.cellDeps
  intro i hi k hk dep hdep
  obtain ⟨j, hj, rfl⟩ := List.mem_map.mp hi
  rw [List.mem_range] at hj
  have hdep : tx.cellDeps[k]? = some dep := hdep
  rw [hdeps, List.getElem?_append_left (by simp [layout]; omega), List.getElem?_map,
    Option.map_eq_some_iff] at hdep
  obtain ⟨op, -, rfl⟩ := hdep
  rfl

/-- The tally selects the deposits. -/
theorem selected_of_built (hwallet : wallet.Documented lib live lock)
    (hready : VoteReady wallet config params lock)
    (hbuilt : VoteBuilt lib wallet config params live lock proposalScript tx)
    (hresolve : resolve live headerOf (tx.sealed hash) = some rtx) :
    selected (tx.cellDeps.map CellDep.outPoint) (daoIndexes wallet lock) =
      (daoCells wallet lock).map Prod.fst := by
  have hcode : CodeDeps (tx.sealed hash) (daoIndexes wallet lock) := codeDeps_of_built hbuilt
  have hsame := selected_eq_of_code hresolve hcode
  rw [← summed_map_fst (summed_of_built hwallet hready hbuilt hresolve)] at hsame
  exact hsame

/-- A vote of the SDK is plain. -/
theorem plainVote_of_built (hwallet : wallet.Documented lib live lock)
    (hready : VoteReady wallet config params lock)
    (hbuilt : VoteBuilt lib wallet config params live lock proposalScript tx)
    (hresolve : resolve live headerOf (tx.sealed hash) = some rtx) :
    PlainVote (tx.sealed hash) (daoIndexes wallet lock) := by
  have hselected := selected_of_built hwallet hready hbuilt hresolve
  refine ⟨codeDeps_of_built hbuilt, ?_, fun op hop => ?_⟩
  · rw [show (tx.sealed hash).cellDeps = tx.cellDeps from rfl, hselected]
    exact (List.nodup_cons.mp (List.nodup_cons.mp hready.layout).2).2
  · rw [show (tx.sealed hash).cellDeps = tx.cellDeps from rfl, hselected] at hop
    obtain ⟨dep, hdep, rfl⟩ := List.mem_map.mp hop
    intro hspent
    obtain ⟨input, hinput, hop⟩ := List.mem_map.mp hspent
    obtain ⟨cell, hlive, -, htype⟩ := hbuilt.inputs input hinput
    obtain ⟨hlive', hdeposit⟩ := deposit_of_mem hwallet hdep
    obtain ⟨depType, hdao, -⟩ := hdeposit.dao
    rw [hop] at hlive
    obtain rfl := Option.some.inj (hlive.symm.trans hlive')
    rw [htype] at hdao
    cases hdao

end Built

/-! ## The result -/

/-- The code of the two scripts is told apart, and is not the Nervos DAO's. -/
structure Deployed (config : NetworkConfig) (IsProposal IsVote : Bytes → Prop) : Prop where
  proposal : ∀ args, args.length = 52 → IsProposal (config.proposalTypeScript.script args)
  vote : ∀ args, args.length = 20 → IsVote (config.voteTypeScript.script args)
  disjoint : ∀ script, IsProposal script → ¬ IsVote script
  dao : ¬ IsProposal daoType ∧ ¬ IsVote daoType

/-- A poll whose votes are under the vote script of a proposal. -/
structure PollOf (config : NetworkConfig) (proposalScript : Bytes) (poll : Poll) : Prop where
  voteCodeHash : poll.voteCodeHash = config.voteTypeScript.codeHash.val
  voteHashType : poll.voteHashType = [config.voteTypeScript.hashType.byte]
  proposalBlake160 : poll.proposalBlake160 = blake160 proposalScript

/-- The poll recognises the vote script of the network. -/
theorem isVoteScript_of_pollOf {proposalScript : Bytes} {poll : Poll}
    (h : PollOf config proposalScript poll) :
    isVoteScript poll (config.voteTypeScript.script (blake160 proposalScript).val) = .ok true := by
  obtain ⟨-, hcode, htype, hargs⟩ := voteScript_fields config proposalScript
  refine TestTool.isVoteScript_eq_true ?_ ?_ ?_
  · rw [h.voteCodeHash, hcode]
  · rw [h.voteHashType, htype]
  · rw [h.proposalBlake160]
    exact hargs

/-- A built vote is accepted by the vote type script. -/
theorem accepted_of_built {ext : ProposalTypeScript.External} {IsProposal IsVote : Bytes → Prop}
    {headerOf : Hash32 → Option Bytes} {hash : Hash32} {rtx : ResolvedTx} {proposalScript : Bytes}
    (hdeployed : Deployed config IsProposal IsVote) (hwallet : wallet.Documented lib live lock)
    (hready : VoteReady wallet config params lock)
    (hbuilt : VoteBuilt lib wallet config params live lock proposalScript tx)
    (hresolve : resolve live headerOf (tx.sealed hash) = some rtx) (hwell : rtx.WellFormed) :
    Accepted ext IsProposal IsVote live (tx.sealed hash) := by
  refine ⟨headerOf, rtx, hresolve, fun cell hcell script htype => ?_⟩
  obtain ⟨change, houtputs, hchange⟩ := hbuilt.outputs
  rcases List.mem_append.mp hcell with hinput | houtput
  · have hnone := type_of_input (fun input hinput =>
      (hbuilt.inputs input hinput).imp fun cell h => ⟨h.1, h.2.2⟩) hresolve hinput
    rw [hnone] at htype
    cases htype
  · have houtput : cell ∈ tx.outputs := houtput
    rw [houtputs] at houtput
    rcases List.mem_cons.mp houtput with rfl | hmem
    · obtain rfl : _ = script := Option.some.inj htype
      exact ⟨fun hproposal => absurd (hdeployed.vote _ (FixedBytes.length_val _))
          (hdeployed.disjoint _ hproposal),
        fun _ => run_of_built hwallet hready hbuilt hresolve hwell⟩
    · rw [hchange cell hmem] at htype
      cases htype

omit [Blake2b] in
/-- The deposits that a ready vote names weigh what it says. -/
theorem realWeight_of_ready (hwallet : wallet.Documented lib live lock)
    (hready : VoteReady wallet config params lock) (hne : daoCells wallet lock ≠ []) :
    RealWeight live lock ((daoCells wallet lock).map Prod.fst) (totalDaoCapacity wallet lock) := by
  have hnodup : ((daoCells wallet lock).map Prod.fst).Nodup :=
    (List.nodup_cons.mp (List.nodup_cons.mp hready.layout).2).2
  have hsum : totalDaoCapacity wallet lock =
      (((daoCells wallet lock).map Prod.fst).map (capacityAt live)).sum := by
    rw [totalDaoCapacity, List.map_map]
    refine congrArg List.sum (List.map_congr_left fun dep hdep => ?_)
    obtain ⟨hlive, -⟩ := deposit_of_mem hwallet hdep
    simp [capacityAt, hlive]
  refine ⟨by simpa using hne, fun op hop => ?_, ?_, ?_⟩
  · obtain ⟨dep, hdep, rfl⟩ := List.mem_map.mp hop
    exact ⟨dep.2, deposit_of_mem hwallet hdep⟩
  · rw [hnodup.dedup, hsum]
  · rw [hnodup.dedup]

/-- **Votes of the SDK are accepted and counted in full.**  A transaction that
`createVote` returns is accepted as soon as it resolves, whatever the wallet
has added; and whenever it lies in the window of a poll on the proposal, the
tally reads exactly one vote of it, under the signer's lock, in the direction
asked for, naming each of the signer's deposits once and weighing their CKB.  The
deposits are all that the signer has. -/
theorem createVote_accepted {ext : ProposalTypeScript.External} {IsProposal IsVote : Bytes → Prop}
    {headerOf : Hash32 → Option Bytes} {hash : Hash32} {rtx : ResolvedTx} (hlib : lib.Documented)
    (hdeployed : Deployed config IsProposal IsVote) (hwallet : wallet.Documented lib live lock)
    (hready : VoteReady wallet config params lock)
    (hcreate : createVote lib wallet config params = some tx)
    (hresolve : resolve live headerOf (tx.sealed hash) = some rtx) (hwell : rtx.WellFormed) :
    Accepted ext IsProposal IsVote live (tx.sealed hash) ∧ FindsDeposits wallet live lock ∧
    RealWeight live lock ((daoCells wallet lock).map Prod.fst) (totalDaoCapacity wallet lock) ∧
    ∃ proposalCell proposalScript, live params.proposalOutPoint = some proposalCell ∧
      proposalCell.type_ = some proposalScript ∧
      ∀ poll raw witnesses compatible, PollOf config proposalScript poll →
        RawTransactionReader.verify compatible raw = .ok () →
        ChainTx.ofRaw raw witnesses = .ok (tx.sealed hash) →
        readTx poll raw = .ok ⟨tx.inputs.map CellInput.previousOutput,
          [⟨lock, (params.vote.byte, totalDaoCapacity wallet lock),
            (daoCells wallet lock).map Prod.fst⟩]⟩ := by
  obtain ⟨proposalScript, hbuilt⟩ := voteBuilt_of_createVote hlib hwallet hready hcreate hresolve
  obtain ⟨proposalCell, hlive, htype⟩ := hbuilt.proposal
  refine ⟨accepted_of_built hdeployed hwallet hready hbuilt hresolve hwell, findsDeposits hwallet,
    realWeight_of_ready hwallet hready hbuilt.deposits, proposalCell, proposalScript, hlive, htype,
    fun poll raw witnesses compatible hpoll hraw htx => ?_⟩
  obtain ⟨change, houtputs, hchange⟩ := hbuilt.outputs
  obtain ⟨hvote, hballot, hindices⟩ := voteData_fields hready params.vote
  have hcell : (tx.sealed hash).outputs[0]? =
      some (voteCellOf lib wallet config params lock proposalScript) := by
    rw [show (tx.sealed hash).outputs = tx.outputs from rfl, houtputs]
    rfl
  have hsingle : ∀ (k : Nat) (other : Cell) (s : Bytes), (tx.sealed hash).outputs[k]? = some other →
      other.type_ = some s → isVoteScript poll s = .ok true → k = 0 := by
    intro k other s hother htype _
    rw [show (tx.sealed hash).outputs = tx.outputs from rfl, houtputs] at hother
    cases k with
    | zero => rfl
    | succ k =>
        rw [hchange other (List.mem_of_getElem? hother)] at htype
        cases htype
  have hread := readTx_of_single hraw htx hcell rfl (isVoteScript_of_pollOf hpoll) hsingle hvote
    hindices hballot
  rw [show (tx.sealed hash).cellDeps = tx.cellDeps from rfl,
    selected_of_built hwallet hready hbuilt hresolve] at hread
  exact hread

end Create

/-! ## Spending one cell -/

section Spends

variable [Blake2b] {live : Live} {tx : Transaction}

/-- A transaction that spends one cell of its own choice, and whose outputs have
no type scripts. -/
structure Spends (live : Live) (op : OutPoint) (tx : Transaction) : Prop where
  inputs : ∃ added, tx.inputs = ⟨FixedBytes.zero 8, op⟩ :: added ∧ ∀ input ∈ added,
    ∃ cell, live input.previousOutput = some cell ∧ cell.type_ = none
  outputs : ∀ cell ∈ tx.outputs, cell.type_ = none

/-- Inputs and outputs of such a transaction carry the script of the one cell. -/
theorem type_of_spends {headerOf : Hash32 → Option Bytes} {hash : Hash32} {rtx : ResolvedTx}
    {op : OutPoint} {cell : Cell} (hspends : Spends live op tx) (hlive : live op = some cell)
    (hresolve : resolve live headerOf (tx.sealed hash) = some rtx) :
    (∃ rest, rtx.inputs = cell :: rest ∧ ∀ other ∈ rest, other.type_ = none) ∧
      ∀ script, group script rtx.tx.outputs = [] := by
  obtain ⟨⟨added, hadded, htypes⟩, houtputs⟩ := hspends
  have hresolves := resolves_of_resolve hresolve
  constructor
  · have hinputs := hresolves.inputs
    rw [show (tx.sealed hash).inputs = tx.inputs from rfl, hadded, List.map_cons, hlive] at hinputs
    cases hrest : rtx.inputs with
    | nil => simp [hrest] at hinputs
    | cons first rest =>
        rw [hrest, List.map_cons, List.cons.injEq] at hinputs
        obtain rfl := Option.some.inj hinputs.1
        refine ⟨rest, rfl, fun other hother => ?_⟩
        have hmem : some other ∈ added.map fun input => live input.previousOutput := by
          rw [hinputs.2]
          exact List.mem_map_of_mem hother
        obtain ⟨input, hinput, hsome⟩ := List.mem_map.mp hmem
        obtain ⟨other', hlive', htype⟩ := htypes input hinput
        obtain rfl := Option.some.inj (hsome.symm.trans hlive')
        exact htype
  · intro script
    rw [hresolves.tx_eq]
    refine List.filter_eq_nil_iff.mpr fun other hother => ?_
    simp [Cell.typeHash, houtputs other hother]

/-- Such a transaction is accepted when the script of the one cell accepts it. -/
theorem accepted_of_spends {ext : ProposalTypeScript.External} {IsProposal IsVote : Bytes → Prop}
    {headerOf : Hash32 → Option Bytes} {hash : Hash32} {rtx : ResolvedTx} {op : OutPoint}
    {cell : Cell} (hspends : Spends live op tx) (hlive : live op = some cell)
    (hresolve : resolve live headerOf (tx.sealed hash) = some rtx)
    (hscript : ∀ script, cell.type_ = some script →
      (IsProposal script → ProposalTypeScript.run ext rtx script = .ok ()) ∧
      (IsVote script → VoteTypeScript.run rtx script = .ok ())) :
    Accepted ext IsProposal IsVote live (tx.sealed hash) := by
  refine ⟨headerOf, rtx, hresolve, fun other hother script htype => ?_⟩
  obtain ⟨⟨rest, hinputs, hrest⟩, -⟩ := type_of_spends hspends hlive hresolve
  rw [hinputs] at hother
  rcases List.mem_append.mp hother with hinput | houtput
  · rcases List.mem_cons.mp hinput with rfl | hmem
    · exact hscript script htype
    · rw [hrest other hmem] at htype
      cases htype
  · rw [hspends.outputs other houtput] at htype
    cases htype

end Spends

/-! ## A sample library and wallet -/

section Sample

def molLibrary : Library where
  toCcc := moleculeCcc
  uint16Vec := {
    encode := fun
      | .object entries => some (buildFixVec (entries.map fun entry =>
          match entry.2 with
          | .num n => leBytes 2 n
          | _ => []))
      | _ => none
    decode := fun s =>
      if s.length = 4 + 2 * numberAt s 0 then
        some (.object ((FixVec.items 2 s).map fun item => ("", .num (leNat item))))
      else none }
  array entries := .object (entries.map fun n => ("", .num n))
  addressFromString _ := none
  addCellDeps := Transaction.withCellDep
  cellOutputFrom capacity lock type_ data :=
    ⟨if capacity = 0 then 100 else capacity, lock, type_, data⟩
  minimalCapacity _ _ _ := 100
  witnessArgsFrom := witnessArgs

theorem molLibrary_documented : molLibrary.Documented where
  ccc := moleculeCcc_documented
  uint8_encode n hn := by
    rw [show molLibrary.uint8.encode (.num n) = some (leBytes 1 n) from if_pos hn]
    simp [leBytes, Nat.mod_eq_of_lt hn]
  uint32_encode n hn := if_pos hn
  uint64_encode n hn := if_pos hn
  uint64_decode s hs := if_pos hs
  byte32_encode s hs := if_pos hs
  uint16Vec_encode entries _ _ := by
    show some (buildFixVec _) = _
    rw [List.map_map]
    rfl
  script_encode codeHash name t args hcode hname hsize := by
    have hargs : args.length < 2 ^ 32 := by
      rw [TestTool.length_script args hcode rfl] at hsize
      omega
    have hcodeEncode : (Codec.fixedHex 32).encode (.hex codeHash) = some codeHash := if_pos hcode
    have htype : hashTypeCodec.encode (.str name) = some [t] := by
      simp only [hashTypeNames, List.mem_cons, Prod.mk.injEq, List.not_mem_nil, or_false] at hname
      rcases hname with ⟨rfl, rfl⟩ | ⟨rfl, rfl⟩ | ⟨rfl, rfl⟩ | ⟨rfl, rfl⟩ <;> rfl
    have hargsEncode : Codec.bytes.encode (.hex args) = some (buildBytes args) := if_pos hargs
    have hfields : List.Forall₂ (fun field pair => field.2.encode pair.1 = some pair.2)
        [("codeHash", Codec.fixedHex 32), ("hashType", hashTypeCodec), ("args", Codec.bytes)]
        [(.hex codeHash, codeHash), (.str name, [t]), (.hex args, buildBytes args)] :=
      .cons hcodeEncode (.cons htype (.cons hargsEncode .nil))
    exact Codec.isTable_table.encode_zip (by simp) hfields hsize
  addCellDeps_eq _ _ := rfl
  cellOutputFrom_eq _ _ _ _ := rfl
  witnessArgsFrom_eq _ _ := rfl

/-- The live cells in a list. -/
def liveOf (cells : List (OutPoint × Cell)) : Live := fun op =>
  (cells.find? fun p => p.1 = op).map Prod.snd

/-- With distinct out points, a cell is live when it is listed. -/
theorem liveOf_eq_some {cells : List (OutPoint × Cell)} (h : (cells.map Prod.fst).Nodup)
    {op : OutPoint} {cell : Cell} : liveOf cells op = some cell ↔ (op, cell) ∈ cells := by
  induction cells with
  | nil => simp [liveOf]
  | cons p cells ih =>
      obtain ⟨hnotin, hnodup⟩ := List.nodup_cons.mp h
      have ih := ih hnodup
      rw [liveOf] at ih ⊢
      by_cases hop : p.1 = op
      · rw [List.find?_cons_of_pos (by simpa using hop), Option.map_some, Option.some_inj,
          List.mem_cons]
        constructor
        · intro heq
          exact Or.inl (Prod.ext hop.symm heq.symm)
        · rintro (heq | hmem)
          · rw [← heq]
          · exact absurd (List.mem_map_of_mem hmem) (hop ▸ hnotin)
      · rw [List.find?_cons_of_neg (by simpa using hop), ih, List.mem_cons]
        constructor
        · exact Or.inr
        · rintro (heq | hmem)
          · exact absurd (congrArg Prod.fst heq).symm hop
          · exact hmem

/-- Looking among unspent cells finds no spent one, and any other as before. -/
theorem find?_unspent (cells : List (OutPoint × Cell)) (spent : List OutPoint) (op : OutPoint) :
    (cells.filter fun p => !spent.contains p.1).find? (fun p => p.1 = op) =
      if op ∈ spent then none else cells.find? fun p => p.1 = op := by
  split_ifs with hspent
  · refine List.find?_eq_none.mpr fun p hp => ?_
    have hunspent : p.1 ∉ spent := by simpa using (List.mem_filter.mp hp).2
    simpa using fun hop : p.1 = op => hunspent (hop ▸ hspent)
  · rw [List.find?_filter]
    congr 1
    funext p
    by_cases hop : p.1 = op
    · simpa [hop] using hspent
    · simp [hop]

/-- The cells in a list after a transaction. -/
def cellsAfter (cells : List (OutPoint × Cell)) (tx : ChainTx) : List (OutPoint × Cell) :=
  tx.outputs.zipIdx.map (fun p => (outPointOf tx.hash p.2, p.1)) ++
    cells.filter fun p => !(tx.inputs.map CellInput.previousOutput).contains p.1

/-- A transaction acts on the listed cells. -/
theorem applyTo_liveOf (tx : ChainTx) (cells : List (OutPoint × Cell)) :
    tx.applyTo (liveOf cells) = liveOf (cellsAfter cells tx) := by
  funext op
  have hcreated : (tx.outputs.zipIdx.map fun p => (outPointOf tx.hash p.2, p.1)).find?
      (fun p => p.1 = op) =
        (tx.outputs.zipIdx.find? fun p => outPointOf tx.hash p.2 = op).map
          fun p => (outPointOf tx.hash p.2, p.1) := by
    rw [List.find?_map]
    rfl
  rw [ChainTx.applyTo, ChainTx.created, liveOf, liveOf, cellsAfter, List.find?_append, hcreated,
    find?_unspent]
  cases tx.outputs.zipIdx.find? fun p => outPointOf tx.hash p.2 = op with
  | some p => rfl
  | none =>
      simp only [Option.map_none, Option.none_or]
      split_ifs <;> rfl

/-- A wallet that pays with one input, if it has one, and takes the change on one
output. -/
def walletOf (cells : List (OutPoint × Cell)) (signerLock : Value) (lock : Bytes)
    (funding : Option CellInput) : Wallet where
  signerLock := signerLock
  nervosDao := daoType
  getCell := liveOf cells
  findCellsByLock lock type_ := cells.filter fun p => p.2.lock = lock ∧ p.2.type_ = some type_
  isNervosDao cell := cell.data = List.replicate 8 0
  completeInputsByCapacity tx := funding.map fun input => { tx with inputs := tx.inputs ++ [input] }
  completeFeeBy tx := some { tx with outputs := tx.outputs ++ [⟨400, lock, none, []⟩] }

/-- The sample wallet behaves as documented. -/
theorem walletOf_documented {cells : List (OutPoint × Cell)} {signerLock : Value} {lock : Bytes}
    {funding : Option CellInput} (hkeys : (cells.map Prod.fst).Nodup)
    (hlock : molLibrary.scriptEncode signerLock = some lock)
    (hfunding : ∀ input ∈ funding, ∃ cell, liveOf cells input.previousOutput = some cell ∧
      cell.lock = lock ∧ cell.type_ = none) :
    (walletOf cells signerLock lock funding).Documented molLibrary (liveOf cells) lock where
  lock_eq := hlock
  nervosDao_eq := rfl
  isNervosDao_iff _ _ _ := decide_eq_true_iff
  getCell_eq _ _ hlive := hlive
  find_mem lock type_ op cell := by
    rw [liveOf_eq_some hkeys]
    simp [walletOf]
  find_nodup lock type_ := hkeys.sublist (List.filter_sublist.map Prod.fst)
  inputs_complete tx tx' h := by
    obtain ⟨input, hinput, rfl⟩ := Option.map_eq_some_iff.mp h
    exact ⟨⟨⟨[input], rfl, by simpa using hfunding input hinput⟩, ⟨[], by simp, by simp⟩,
      ⟨[], by simp⟩, rfl, ⟨[], by simp⟩⟩, fun _ => by simp⟩
  fee_completes tx tx' h := by
    obtain rfl := Option.some.inj h
    exact ⟨⟨[], by simp, by simp⟩, ⟨_, rfl, by simp⟩, ⟨[], by simp⟩, rfl, ⟨[], by simp⟩⟩

open CkbVote.Sample

def sampleConfig : NetworkConfig where
  alwaysSuccess := ⟨digest 8, .data, outPoint 20 0⟩
  proposalTypeScript := ⟨⟨List.replicate 32 1, by simp⟩, .type, outPoint 21 0⟩
  voteTypeScript := ⟨⟨voteCodeHash, by simp [voteCodeHash]⟩, .type, outPoint 22 0⟩
  sp1VerifyingKeyHash := ⟨List.replicate 32 2, by simp⟩

theorem sampleConfig_deployed :
    Deployed sampleConfig (hasCode (List.replicate 32 1)) (hasCode voteCodeHash) where
  proposal args hargs := (TestTool.script_fields args (by simp) rfl (by omega)).2.1
  vote args hargs := (TestTool.script_fields args (by simp) rfl (by omega)).2.1
  disjoint script hproposal hvote := by
    have hsame := Except.ok.inj (hproposal.symm.trans hvote)
    revert hsame
    decide
  dao := by decide +kernel

/-- The cells before a vote: the three contracts, a proposal, a deposit of the
voter's and a cell to pay with. -/
def votingCells : List (OutPoint × Cell) := [
  (outPoint 20 0, ⟨500, lockOf 1, none, []⟩),
  (outPoint 21 0, ⟨500, lockOf 1, none, []⟩),
  (outPoint 22 0, ⟨500, lockOf 1, none, []⟩),
  (outPointOf (digest 12) 0, ⟨100, lockOf 9, some proposalScript, Sample.proposal⟩),
  (outPoint 6 0, ⟨100, lockOf 5, some daoScript, List.replicate 8 0⟩),
  (outPoint 7 0, ⟨500, lockOf 5, none, []⟩)]

def aliceWallet : Wallet := walletOf votingCells
  (scriptValue (List.replicate 32 4) "type" (List.replicate 20 5)) (lockOf 5) (some voteInput)

theorem aliceWallet_documented :
    aliceWallet.Documented molLibrary (liveOf votingCells) (lockOf 5) := by
  refine walletOf_documented (by decide +kernel) rfl fun input hinput => ?_
  obtain rfl := Option.some.inj hinput
  exact ⟨_, rfl, rfl, rfl⟩

def yesParams : CreateVoteParams := ⟨outPointOf (digest 12) 0, .yes⟩

def aliceVote : Transaction where
  cellDeps := [⟨outPoint 22 0, 0⟩, ⟨outPointOf (digest 12) 0, 0⟩, ⟨outPoint 6 0, 0⟩]
  headerDeps := []
  inputs := [voteInput]
  outputs := [⟨100, lockOf 5, some voteScript, Vote.newBuilder 1 100 [2]⟩,
    ⟨400, lockOf 5, none, []⟩]
  witnesses := []

local instance (priority := 2000) sdkHash : Blake2b := lifeBlake2b

/-- What `createVote` returns to Alice, and the deposits it found. -/
theorem aliceVote_reads :
    createVote molLibrary aliceWallet sampleConfig yesParams = some aliceVote ∧
    daoCells aliceWallet (lockOf 5) =
      [(outPoint 6 0, ⟨100, lockOf 5, some daoScript, List.replicate 8 0⟩)] := by
  decide +kernel

/-- The vote, resolved. -/
def aliceResolved : ResolvedTx where
  tx := aliceVote.sealed (digest 13)
  inputs := [⟨500, lockOf 5, none, []⟩]
  cellDeps := [
    (outPoint 22 0, ⟨500, lockOf 1, none, []⟩),
    (outPointOf (digest 12) 0, ⟨100, lockOf 9, some proposalScript, Sample.proposal⟩),
    (outPoint 6 0, ⟨100, lockOf 5, some daoScript, List.replicate 8 0⟩)]
  headerDeps := []

theorem aliceVote_ready : VoteReady aliceWallet sampleConfig yesParams (lockOf 5) := by
  obtain ⟨-, hcells⟩ := aliceVote_reads
  have hlayout : layout aliceWallet sampleConfig yesParams (lockOf 5) =
      [outPoint 22 0, outPointOf (digest 12) 0, outPoint 6 0] := by
    rw [layout, hcells]
    rfl
  have htotal : totalDaoCapacity aliceWallet (lockOf 5) = 100 := by
    rw [totalDaoCapacity, hcells]
    rfl
  exact ⟨hlayout ▸ by decide +kernel, by rw [hcells]; decide, htotal ▸ by decide,
    htotal ▸ by decide⟩

theorem aliceVote_resolves :
    resolve (liveOf votingCells) (fun _ => none) (aliceVote.sealed (digest 13)) =
      some aliceResolved ∧ aliceResolved.WellFormed :=
  ⟨by decide +kernel, ⟨by decide +kernel, by decide +kernel, by decide +kernel⟩⟩

theorem createVote_accepted_alice :
    Accepted typeIdOnly (hasCode (List.replicate 32 1)) (hasCode voteCodeHash) (liveOf votingCells)
      (aliceVote.sealed (digest 13)) ∧ FindsDeposits aliceWallet (liveOf votingCells) (lockOf 5) ∧
    RealWeight (liveOf votingCells) (lockOf 5) ((daoCells aliceWallet (lockOf 5)).map Prod.fst)
      (totalDaoCapacity aliceWallet (lockOf 5)) ∧
    ∃ proposalCell proposalScript,
      liveOf votingCells yesParams.proposalOutPoint = some proposalCell ∧
      proposalCell.type_ = some proposalScript ∧
      ∀ poll raw witnesses compatible, PollOf sampleConfig proposalScript poll →
        RawTransactionReader.verify compatible raw = .ok () →
        ChainTx.ofRaw raw witnesses = .ok (aliceVote.sealed (digest 13)) →
        readTx poll raw = .ok ⟨aliceVote.inputs.map CellInput.previousOutput,
          [⟨lockOf 5, (yesParams.vote.byte, totalDaoCapacity aliceWallet (lockOf 5)),
            (daoCells aliceWallet (lockOf 5)).map Prod.fst⟩]⟩ :=
  createVote_accepted molLibrary_documented sampleConfig_deployed aliceWallet_documented
    aliceVote_ready aliceVote_reads.1 aliceVote_resolves.1 aliceVote_resolves.2

end Sample

end Sdk

end CkbVote
