import CkbVote.Tally
import CkbVote.VoteTypeScript

/-!
# What a vote is backed by, on chain and in the tally

Both programs read `dao_index`, through different lists.  The vote type script
loads cell dep `i` of the expanded list; the tally looks up entry `i` of the
transaction's own `cell_deps` and skips an index out of range.

`vote_agreement_iff` compares them on an accepted vote.  Voter, direction and
amount always agree; the out points agree exactly when the indices select the
same set from both lists.  `selected_eq_of_code` names the usual case: no dep
group stands at or before a selected index.
-/

namespace CkbVote

open Octets Molecule VoteTypeScript

/-- The out points that the indices select from a list, an index out of range
selecting none. -/
def selected (deps : List OutPoint) (indices : List Nat) : List OutPoint :=
  indices.filterMap fun i => deps[i]?

/-! ## Decoded transactions -/

section Code

variable [Blake2b]

/-- How the fields of a decoded transaction were read. -/
structure Decoded (raw cellDeps inputs outputs outputsData : Bytes) (tx : ChainTx) : Prop where
  cellDeps_eq : RawTransactionReader.cellDeps raw = .ok cellDeps
  cellDeps_count : FixVec.itemCount cellDeps = .ok tx.cellDeps.length
  cellDep_eq : ∀ (k : Nat) (hk : k < tx.cellDeps.length),
    readCellDep cellDeps (0 + k) = .ok tx.cellDeps[k]
  inputs_eq : RawTransactionReader.inputs raw = .ok inputs
  inputs_count : FixVec.itemCount inputs = .ok tx.inputs.length
  input_eq : ∀ (k : Nat) (hk : k < tx.inputs.length), readInput inputs (0 + k) = .ok tx.inputs[k]
  outputs_eq : RawTransactionReader.outputs raw = .ok outputs
  outputsData_eq : RawTransactionReader.outputsData raw = .ok outputsData
  outputs_count : itemCount outputs = .ok tx.outputs.length
  outputsData_count : itemCount outputsData = .ok tx.outputs.length
  output_eq : ∀ (k : Nat) (hk : k < tx.outputs.length),
    readCell outputs outputsData (0 + k) = .ok tx.outputs[k]

/-- A transaction that parses is decoded from its parts and carries the hash of
its bytes. -/
theorem decoded_of_ofRaw {raw : Bytes} {witnesses : List Bytes} {tx : ChainTx}
    (h : ChainTx.ofRaw raw witnesses = .ok tx) :
    tx.hash = blake2b256 raw ∧
      ∃ cellDeps inputs outputs outputsData,
        Decoded raw cellDeps inputs outputs outputsData tx := by
  obtain ⟨cellDeps, hcellDeps, h⟩ := bind_eq_ok.mp h
  obtain ⟨depCount, hdepCount, h⟩ := bind_eq_ok.mp h
  obtain ⟨deps, hdeps, h⟩ := bind_eq_ok.mp h
  obtain ⟨headerDeps, -, h⟩ := bind_eq_ok.mp h
  obtain ⟨headerCount, -, h⟩ := bind_eq_ok.mp h
  obtain ⟨headers, -, h⟩ := bind_eq_ok.mp h
  obtain ⟨inputs, hinputs, h⟩ := bind_eq_ok.mp h
  obtain ⟨inputCount, hinputCount, h⟩ := bind_eq_ok.mp h
  obtain ⟨spent, hspent, h⟩ := bind_eq_ok.mp h
  obtain ⟨outputs, houtputs, h⟩ := bind_eq_ok.mp h
  obtain ⟨outputsData, hdata, h⟩ := bind_eq_ok.mp h
  obtain ⟨count, hcount, h⟩ := bind_eq_ok.mp h
  obtain ⟨dataCount, hdataCount, h⟩ := bind_eq_ok.mp h
  obtain ⟨hsame, h⟩ := guard_eq_ok.mp h
  obtain ⟨cells, hcells, h⟩ := bind_eq_ok.mp h
  cases h
  obtain ⟨rfl, hdep⟩ := readRange_eq_ok.mp hdeps
  obtain ⟨rfl, hinput⟩ := readRange_eq_ok.mp hspent
  obtain ⟨rfl, hcell⟩ := readRange_eq_ok.mp hcells
  exact ⟨rfl, cellDeps, inputs, outputs, outputsData, hcellDeps, hdepCount, hdep, hinputs,
    hinputCount, hinput, houtputs, hdata, hcount, not_not.mp hsame ▸ hdataCount, hcell⟩

variable {raw cellDeps inputs outputs outputsData : Bytes} {tx : ChainTx}

omit [Blake2b] in
/-- `get` in range is the unchecked read. -/
theorem dynVec_get_of_lt {s item : Bytes} {n k : Nat} (hcount : itemCount s = .ok n) (hk : k < n)
    (hitem : DynVec.getUnchecked s k = .ok item) : DynVec.get s k = .ok (some item) := by
  rw [DynVec.get, hcount, ok_bind, if_neg (by omega), hitem, ok_bind]

omit [Blake2b] in
/-- What `count_vote` reads as named is selected from the transaction's own cell
deps. -/
theorem readNamed_eq (h : Decoded raw cellDeps inputs outputs outputsData tx)
    {vote daoIndex : Bytes}
    (hdao : VoteReader.daoIndex vote = .ok daoIndex) {indices : List Nat}
    (hindices : daoIndices vote = .ok indices) :
    readNamed cellDeps daoIndex = .ok (selected (tx.cellDeps.map CellDep.outPoint) indices) := by
  rw [daoIndices, hdao, ok_bind] at hindices
  obtain ⟨count, hcount, hindices⟩ := bind_eq_ok.mp hindices
  have hread : readRange (namedOutPoint cellDeps daoIndex) count 0 =
      .ok (indices.map fun i => (tx.cellDeps.map CellDep.outPoint)[i]?) := by
    obtain ⟨hlen, hentries⟩ := readRange_eq_ok.mp hindices
    refine readRange_eq_ok.mpr ⟨by simpa using hlen, fun k hk => ?_⟩
    have hk' : k < indices.length := by simpa using hk
    obtain ⟨entry, hentry, hidx⟩ := bind_eq_ok.mp (hentries k hk')
    rw [namedOutPoint, hentry, ok_bind, hidx, ok_bind, List.getElem_map, FixVec.get,
      h.cellDeps_count, ok_bind]
    by_cases hlt : indices[k] < tx.cellDeps.length
    · have hdep := h.cellDep_eq _ hlt
      rw [Nat.zero_add] at hdep
      obtain ⟨dep, hget, hdep⟩ := bind_eq_ok.mp hdep
      obtain ⟨opSlice, hslice, hdep⟩ := bind_eq_ok.mp hdep
      obtain ⟨op, hop, hdep⟩ := bind_eq_ok.mp hdep
      obtain ⟨typeSlice, -, hdep⟩ := bind_eq_ok.mp hdep
      obtain ⟨depType, -, hdep⟩ := bind_eq_ok.mp hdep
      have houtPoint : tx.cellDeps[indices[k]].outPoint = op := by rw [← Except.ok.inj hdep]
      rw [if_neg (by omega), hget, ok_bind, ok_bind]
      simp only [hslice, ok_bind, hop]
      simp [hlt, houtPoint]
    · rw [if_pos (by omega), ok_bind]
      simp [Nat.le_of_not_lt hlt]
  rw [readNamed, hcount, ok_bind, hread, ok_bind, selected, List.filterMap_map]
  rfl

omit [Blake2b] in
theorem inputs_eq (h : Decoded raw cellDeps inputs outputs outputsData tx) :
    readRange (inputOutPoint inputs) tx.inputs.length 0 =
      .ok (tx.inputs.map CellInput.previousOutput) := by
  refine readRange_eq_ok.mpr ⟨by simp, fun k hk => ?_⟩
  have hk' : k < tx.inputs.length := by simpa using hk
  have hinput := h.input_eq k hk'
  obtain ⟨input, hget, hinput⟩ := bind_eq_ok.mp hinput
  obtain ⟨sinceSlice, -, hinput⟩ := bind_eq_ok.mp hinput
  obtain ⟨since, -, hinput⟩ := bind_eq_ok.mp hinput
  obtain ⟨opSlice, hslice, hinput⟩ := bind_eq_ok.mp hinput
  obtain ⟨op, hop, hinput⟩ := bind_eq_ok.mp hinput
  rw [inputOutPoint, hget, ok_bind, hslice, ok_bind, hop, List.getElem_map, ← Except.ok.inj hinput]

/-- What the tally sees of an output cell. -/
def cellVote (poll : Poll) (cell : Cell) : Run (Option (Bytes × Bytes)) :=
  match cell.type_ with
  | none => .ok none
  | some script => do
      if (← isVoteScript poll script) then
        match fromCompatibleSlice VoteReader.verify cell.data with
        | .error _ => .ok none
        | .ok vote => .ok (some (cell.lock, vote))
      else .ok none

omit [Blake2b] in
/-- The vote that is read in an output is that of the decoded cell. -/
theorem voteOutput_decoded (h : Decoded raw cellDeps inputs outputs outputsData tx) {poll : Poll}
    {k : Nat} {cell : Cell} (hcell : tx.outputs[k]? = some cell) :
    voteOutput poll outputs outputsData k = cellVote poll cell := by
  obtain ⟨hk, rfl⟩ := List.getElem?_eq_some_iff.mp hcell
  have hread := h.output_eq k hk
  rw [Nat.zero_add] at hread
  obtain ⟨output, houtput, hread⟩ := bind_eq_ok.mp hread
  obtain ⟨capSlice, -, hread⟩ := bind_eq_ok.mp hread
  obtain ⟨capacity, -, hread⟩ := bind_eq_ok.mp hread
  obtain ⟨lock, hlock, hread⟩ := bind_eq_ok.mp hread
  obtain ⟨typeScript, htype, hread⟩ := bind_eq_ok.mp hread
  obtain ⟨datum, hdatum, hread⟩ := bind_eq_ok.mp hread
  obtain ⟨data, hdata, hread⟩ := bind_eq_ok.mp hread
  rw [← Except.ok.inj hread, voteOutput, dynVec_get_of_lt h.outputs_count hk houtput, ok_bind]
  simp only [htype, ok_bind]
  cases toOpt typeScript with
  | none => rfl
  | some script =>
      simp only [dynVec_get_of_lt h.outputsData_count hk hdatum, ok_bind, hdata, hlock]
      rfl

/-! ## The one vote of a transaction -/

omit [Blake2b] in
/-- A vote that parses strictly parses compatibly. -/
theorem vote_compatible {data : Bytes} (h : VoteReader.verify false data = .ok ()) :
    fromCompatibleSlice VoteReader.verify data = .ok data :=
  fromCompatibleSlice_eq_ok.mpr ⟨verifyTable_compatible rfl (fun _ hfields => hfields) h, rfl⟩

omit [Blake2b] in
theorem filterMap_singleton {α : Type} {n j : Nat} (hj : j < n) (w : α) :
    ((List.range n).map fun k => if k = j then some w else none).filterMap id = [w] := by
  rw [List.filterMap_map]
  induction n with
  | zero => omega
  | succ n ih =>
      rw [List.range_succ, List.filterMap_append]
      by_cases hlt : j < n
      · rw [ih hlt]
        simp [Nat.ne_of_gt hlt]
      · obtain rfl : j = n := by omega
        have hnone :
            (List.range j).filterMap (id ∘ fun k => if k = j then some w else none) = [] := by
          rw [List.filterMap_eq_nil_iff]
          intro k hk
          simp [Nat.ne_of_lt (List.mem_range.mp hk)]
        rw [hnone]
        simp

variable {compatible : Bool} {poll : Poll} {script : Bytes} {j : Nat} {cell : Cell}
  {witnesses : List Bytes}

omit [Blake2b] in
/-- What the tally reads of an accepted vote output. -/
theorem readOutput_vote (h : Decoded raw cellDeps inputs outputs outputsData tx)
    (hcell : tx.outputs[j]? = some cell) (htype : cell.type_ = some script)
    (hpoll : isVoteScript poll script = .ok true)
    (hvote : VoteReader.verify false cell.data = .ok ())
    {indices : List Nat} {ballot : Ballot} (hindices : daoIndices cell.data = .ok indices)
    (hballot : readBallot cell.data = .ok ballot) :
    readOutput poll outputs outputsData cellDeps j = .ok (some
      ⟨cell.lock, ballot, selected (tx.cellDeps.map CellDep.outPoint) indices⟩) := by
  obtain ⟨daoIndex, hdao, -⟩ := bind_eq_ok.mp hindices
  obtain ⟨slice, hslice, hballot⟩ := bind_eq_ok.mp hballot
  obtain ⟨direction, hdirection, hballot⟩ := bind_eq_ok.mp hballot
  obtain ⟨amountSlice, hamountSlice, hballot⟩ := bind_eq_ok.mp hballot
  obtain ⟨amount, hamount, hballot⟩ := bind_eq_ok.mp hballot
  have hcellVote : cellVote poll cell = .ok (some (cell.lock, cell.data)) := by
    simp only [cellVote, htype, hpoll, ok_bind, vote_compatible hvote, if_true]
  have hread : readVote cellDeps cell.lock cell.data = .ok
      ⟨cell.lock, ballot, selected (tx.cellDeps.map CellDep.outPoint) indices⟩ := by
    rw [readVote, hslice, ok_bind, hdirection, ok_bind, hamountSlice, ok_bind, hamount, ok_bind,
      hdao, ok_bind, readNamed_eq h hdao hindices, ok_bind, ← Except.ok.inj hballot]
  rw [readOutput, voteOutput_decoded h hcell, hcellVote, ok_bind]
  simp only [hread, ok_bind]

omit [Blake2b] in
/-- The tally passes over an output without the vote script. -/
theorem readOutput_other (hraw : RawTransactionReader.verify compatible raw = .ok ())
    (h : Decoded raw cellDeps inputs outputs outputsData tx) {k : Nat} {other : Cell}
    (hcell : tx.outputs[k]? = some other)
    (hnone : ∀ s, other.type_ = some s → isVoteScript poll s ≠ .ok true) :
    readOutput poll outputs outputsData cellDeps k = .ok none := by
  have hlayout := RawTransactionReader.layout_of_verify hraw
  obtain ⟨hk, -⟩ := List.getElem?_eq_some_iff.mp hcell
  obtain ⟨vote, hread⟩ : ∃ vote, cellVote poll other = .ok vote := by
    have houtputs : outputs = part raw 4 :=
      Except.ok.inj (h.outputs_eq.symm.trans hlayout.outputs_eq)
    have hdata : outputsData = part raw 5 :=
      Except.ok.inj (h.outputsData_eq.symm.trans hlayout.outputsData_eq)
    have hcount := h.outputs_count
    rw [houtputs, DynVec.itemCount_eq hlayout.outputs_layout, Except.ok.injEq] at hcount
    rw [← voteOutput_decoded h hcell, houtputs, hdata]
    exact voteOutput_ok hlayout (by omega)
  have hvote : vote = none := by
    cases hscript : other.type_ with
    | none =>
        simp only [cellVote, hscript, Except.ok.injEq] at hread
        exact hread.symm
    | some s =>
        simp only [cellVote, hscript] at hread
        obtain ⟨b, hb, hread⟩ := bind_eq_ok.mp hread
        cases b with
        | true => exact absurd hb (hnone s hscript)
        | false =>
            simp only [Bool.false_eq_true, if_false, Except.ok.injEq] at hread
            exact hread.symm
  rw [readOutput, voteOutput_decoded h hcell, hread, hvote, ok_bind]

/-- The vote that the tally reads off an accepted vote output. -/
theorem readTx_of_single (hraw : RawTransactionReader.verify compatible raw = .ok ())
    (htx : ChainTx.ofRaw raw witnesses = .ok tx) (hcell : tx.outputs[j]? = some cell)
    (htype : cell.type_ = some script) (hpoll : isVoteScript poll script = .ok true)
    (hsingle : ∀ k other s, tx.outputs[k]? = some other → other.type_ = some s →
      isVoteScript poll s = .ok true → k = j)
    (hvote : VoteReader.verify false cell.data = .ok ()) {indices : List Nat} {ballot : Ballot}
    (hindices : daoIndices cell.data = .ok indices) (hballot : readBallot cell.data = .ok ballot) :
    readTx poll raw = .ok ⟨tx.inputs.map CellInput.previousOutput,
      [⟨cell.lock, ballot, selected (tx.cellDeps.map CellDep.outPoint) indices⟩]⟩ := by
  obtain ⟨-, cellDeps, inputs, outputs, outputsData, h⟩ := decoded_of_ofRaw htx
  obtain ⟨hj, -⟩ := List.getElem?_eq_some_iff.mp hcell
  have hvotes : readRange (readOutput poll outputs outputsData cellDeps) tx.outputs.length 0 =
      .ok ((List.range tx.outputs.length).map fun k => if k = j then some
        ⟨cell.lock, ballot, selected (tx.cellDeps.map CellDep.outPoint) indices⟩ else none) := by
    refine readRange_eq_ok.mpr ⟨by simp, fun k hk => ?_⟩
    have hk' : k < tx.outputs.length := by simpa using hk
    have hget : tx.outputs[k]? = some tx.outputs[k] := List.getElem?_eq_getElem hk'
    rw [Nat.zero_add, List.getElem_map, List.getElem_range]
    by_cases hkj : k = j
    · rw [if_pos hkj, hkj, readOutput_vote h hcell htype hpoll hvote hindices hballot]
    · rw [if_neg hkj]
      exact readOutput_other hraw h hget fun s hs hscript => hkj (hsingle k _ s hget hs hscript)
  rw [readTx, h.inputs_eq, ok_bind, h.inputs_count, ok_bind, inputs_eq h, ok_bind, h.outputs_eq,
    ok_bind, h.outputsData_eq, ok_bind, h.cellDeps_eq, ok_bind, h.outputs_count, ok_bind, hvotes,
    ok_bind, filterMap_singleton hj]

/-- The tally's view of a transaction agrees with the run of the vote type
script: after the inputs, the loop of `count_vote` records one vote, under the
lock of the vote output and with its ballot, and inserts the out points of the
cells whose capacities were summed. -/
def Agrees (poll : Poll) (raw : Bytes) (voteOutput : Cell) (summed : List (OutPoint × Cell)) :
    Prop :=
  ∃ (inputs : List OutPoint) (w : CastVote),
    (∀ maps, processTransaction poll raw maps = .ok (castMaps (inputs.foldl spendInput maps) w)) ∧
      w.lock = voteOutput.lock ∧ readBallot voteOutput.data = .ok w.ballot ∧
      ∀ op, op ∈ w.named ↔ op ∈ summed.map Prod.fst

/-- After inputs that spend nothing known, exactly the named out points have an
owner. -/
theorem owner_castMaps_empty (inputs : List OutPoint) (w : CastVote) (op : OutPoint) :
    ((castMaps (inputs.foldl spendInput Maps.empty) w).toBook.owner op).isSome =
      decide (op ∈ w.named) := by
  have hspent : (inputs.foldl spendInput Maps.empty).toBook.owner op = none := by
    rw [toBook_foldl_spendInput, Replay.Book.owner_foldl_spend, Maps.toBook_empty]
    simp [Replay.Book.empty]
  rw [toBook_castMaps, Replay.Book.cast]
  by_cases hop : op ∈ w.named
  · simp [hop]
  · simp [hop, hspent]

omit [Blake2b] in
/-- Summed deps lie where the indices select in the expanded list. -/
theorem summed_map_fst {rtx : ResolvedTx} {data : Bytes} {indices : List Nat}
    {deps : List (OutPoint × Cell)} (h : Summed rtx data indices deps) :
    deps.map Prod.fst = selected (rtx.cellDeps.map Prod.fst) indices := by
  have hdeps := h.deps_eq
  clear h
  induction indices generalizing deps with
  | nil =>
      rw [List.map_nil, List.nil_eq, List.map_eq_nil_iff] at hdeps
      rw [hdeps]
      rfl
  | cons i indices ih =>
      cases deps with
      | nil => simp at hdeps
      | cons dep deps =>
          simp only [List.map_cons, List.cons.injEq] at hdeps
          have hrest := ih hdeps.2
          simp only [selected, List.getElem?_map] at hrest
          simp [selected, hdeps.1, hrest]

/-- **Agreement on what backs a vote.**  For an accepted vote output that is
the only vote output of its transaction, the run has summed the cell deps its
indices select from the expanded list, and the tally agrees with the run
exactly when the indices select the same out points from the transaction's own
`cell_deps`. -/
theorem vote_agreement_iff {live : Live} {headerOf : Hash32 → Option Bytes} {rtx : ResolvedTx}
    (hraw : RawTransactionReader.verify compatible raw = .ok ())
    (htx : ChainTx.ofRaw raw witnesses = .ok tx) (hresolve : resolve live headerOf tx = some rtx)
    (hcell : tx.outputs[j]? = some cell) (htype : cell.type_ = some script)
    (hpoll : isVoteScript poll script = .ok true)
    (hsingle : ∀ k other s, tx.outputs[k]? = some other → other.type_ = some s →
      isVoteScript poll s = .ok true → k = j)
    (haccept : VoteTypeScript.run rtx script = .ok ()) :
    ∃ indices summed, Summed rtx cell.data indices summed ∧
      (Agrees poll raw cell summed ↔
        ∀ op, op ∈ selected (tx.cellDeps.map CellDep.outPoint) indices ↔
          op ∈ selected (rtx.cellDeps.map Prod.fst) indices) := by
  have hgroup : cell ∈ group script rtx.tx.outputs := by
    rw [(resolves_of_resolve hresolve).tx_eq, group, List.mem_filter]
    exact ⟨List.mem_of_getElem? hcell, by simp [Cell.typeHash, htype]⟩
  rcases run_eq_ok haccept with hnone | ⟨voteOutput, hcreation⟩
  · rw [hnone] at hgroup
    cases hgroup
  rw [hcreation.group_eq, List.mem_singleton] at hgroup
  subst hgroup
  obtain ⟨indices, summed, hsummed⟩ := hcreation.summed
  obtain ⟨ballot, hballot, -⟩ := hsummed.amount
  have hread := readTx_of_single hraw htx hcell htype hpoll hsingle hcreation.vote_ok
    hsummed.indices_eq hballot
  have hprocess : ∀ maps, processTransaction poll raw maps = .ok (castMaps
      ((tx.inputs.map CellInput.previousOutput).foldl spendInput maps)
      ⟨cell.lock, ballot, selected (tx.cellDeps.map CellDep.outPoint) indices⟩) := by
    intro maps
    rw [processTransaction_eq, hread]
    rfl
  refine ⟨indices, summed, hsummed, ?_⟩
  constructor
  · intro h op
    obtain ⟨inputs, w, hw, -, -, hnamed⟩ := h
    -- on empty maps the owners are exactly the named out points
    have hsame := Except.ok.inj ((hw Maps.empty).symm.trans (hprocess Maps.empty))
    have howner := congrArg (fun maps => (maps.toBook.owner op).isSome) hsame
    simp only [owner_castMaps_empty, decide_eq_decide] at howner
    rw [← summed_map_fst hsummed, ← hnamed op]
    exact howner.symm
  · intro hsame
    refine ⟨_, _, hprocess, rfl, hballot, fun op => ?_⟩
    rw [summed_map_fst hsummed]
    exact hsame op

omit [Blake2b] in
/-- Below a position before which every dep is a single cell, the expanded list
is the list itself. -/
theorem expanded_getElem? {live : Live} {deps : List CellDep} {expanded : List (List OutPoint)}
    (h : deps.map (expandDep live) = expanded.map some) {i : Nat}
    (hcode : ∀ k ≤ i, ∀ dep, deps[k]? = some dep → dep.depType = 0) :
    expanded.flatten[i]? = (deps.map CellDep.outPoint)[i]? := by
  induction deps generalizing expanded i with
  | nil =>
      rw [List.map_nil, List.nil_eq, List.map_eq_nil_iff] at h
      simp [h]
  | cons dep deps ih =>
      cases expanded with
      | nil => simp at h
      | cons ops expanded =>
          simp only [List.map_cons, List.cons.injEq] at h
          have hdep : dep.depType = 0 := hcode 0 (Nat.zero_le i) dep rfl
          have hops : ops = [dep.outPoint] := by
            have hexpand : expandDep live dep = some [dep.outPoint] := by simp [expandDep, hdep]
            exact Option.some.inj (h.1.symm.trans hexpand)
          subst hops
          cases i with
          | zero => rfl
          | succ i =>
              have hrest := ih h.2 (i := i) fun k hk d hd =>
                hcode (k + 1) (by omega) d (by simpa using hd)
              simpa using hrest

omit [Blake2b] in
/-- Without a dep group at or before a selected index, both lists select the
same out points. -/
theorem selected_eq_of_code {live : Live} {headerOf : Hash32 → Option Bytes} {rtx : ResolvedTx}
    (hresolve : resolve live headerOf tx = some rtx) {indices : List Nat}
    (hcode : ∀ i ∈ indices, ∀ k ≤ i, ∀ dep, tx.cellDeps[k]? = some dep → dep.depType = 0) :
    selected (tx.cellDeps.map CellDep.outPoint) indices =
      selected (rtx.cellDeps.map Prod.fst) indices := by
  obtain ⟨expanded, hexpanded, hfst⟩ := (resolves_of_resolve hresolve).cellDeps
  refine List.filterMap_congr fun i hi => ?_
  rw [hfst]
  exact (expanded_getElem? hexpanded (hcode i hi)).symm

end Code

namespace Sample

def daoScript : Bytes := Script.newBuilder daoCodeHash [daoHashType] []

def voteScript : Bytes := Script.newBuilder voteCodeHash [1] poll.proposalBlake160.val

/-- A dep group that holds the proposal cell and Alice's deposit. -/
def live : Live := fun op => [
  (outPoint 7 0, (⟨500, lockOf 5, none, []⟩ : Cell)),
  (outPoint 10 0, ⟨500, lockOf 9, none, buildFixVec [(outPoint 11 0).val, (outPoint 6 0).val]⟩),
  (outPoint 11 0, ⟨500, lockOf 9, some proposalScript, proposal⟩),
  (outPoint 6 0, ⟨100, lockOf 5, some daoScript, List.replicate 8 0⟩)].lookup op

/-- A vote of Alice whose `dao_index` is `[1]`. -/
def voteWithDeps (cellDeps : List Bytes) : Bytes :=
  RawTransaction.newBuilder cellDeps [] [CellInput.newBuilder 0 (outPoint 7 0).val]
    [CellOutput.newBuilder 100 (lockOf 5) voteScript] [Vote.newBuilder 1 100 [1]]

def groupVote : Bytes := voteWithDeps [CellDep.newBuilder (outPoint 10 0).val 1]

def codeVote : Bytes := voteWithDeps
  [CellDep.newBuilder (outPoint 11 0).val 0, CellDep.newBuilder (outPoint 6 0).val 0]

def voteCell : Cell := ⟨100, lockOf 5, some voteScript, Vote.newBuilder 1 100 [1]⟩

def voteInput : CellInput := ⟨FixedBytes.zero 8, outPoint 7 0⟩

def groupVoteTx : ChainTx :=
  ⟨digest 0x026fa7ae7c365b7c43be54a420726c8c1c7116753eb97c8b797bcbffb74ea946,
    [⟨outPoint 10 0, 1⟩], [], [voteInput], [voteCell], []⟩

def codeVoteTx : ChainTx :=
  ⟨digest 0xadfb23c1f7c89fd9e9b550ae5bf80236a521487d5d8f53d5650f57e16b698b85,
    [⟨outPoint 11 0, 0⟩, ⟨outPoint 6 0, 0⟩], [], [voteInput], [voteCell], []⟩

/-- Both transactions resolve to the same cells. -/
def resolvedVote (tx : ChainTx) : ResolvedTx := ⟨tx, [⟨500, lockOf 5, none, []⟩], [
  (outPoint 11 0, ⟨500, lockOf 9, some proposalScript, proposal⟩),
  (outPoint 6 0, ⟨100, lockOf 5, some daoScript, List.replicate 8 0⟩)], []⟩

def depDigests : List (Bytes × Nat) := [
  (voteScript, 0x0930f26aa4842db41b70c420e484518100590a309c1189039c0cc598d8af8cf2),
  (groupVote, 0x026fa7ae7c365b7c43be54a420726c8c1c7116753eb97c8b797bcbffb74ea946),
  (codeVote, 0xadfb23c1f7c89fd9e9b550ae5bf80236a521487d5d8f53d5650f57e16b698b85)]

scoped instance depBlake2b : Blake2b := tableBlake2b (scriptDigests ++ depDigests)

/-- Each transaction is read, resolves, and passes the script; the two read a
named deposit at different places. -/
theorem votes_read :
    (RawTransactionReader.verify false groupVote = .ok () ∧
      ChainTx.ofRaw groupVote [] = .ok groupVoteTx ∧
      resolve live (fun _ => none) groupVoteTx = some (resolvedVote groupVoteTx) ∧
      VoteTypeScript.run (resolvedVote groupVoteTx) voteScript = .ok () ∧
      readTx poll groupVote = .ok ⟨[outPoint 7 0], [⟨lockOf 5, (1, 100), []⟩]⟩) ∧
    (RawTransactionReader.verify false codeVote = .ok () ∧
      ChainTx.ofRaw codeVote [] = .ok codeVoteTx ∧
      resolve live (fun _ => none) codeVoteTx = some (resolvedVote codeVoteTx) ∧
      VoteTypeScript.run (resolvedVote codeVoteTx) voteScript = .ok ()) ∧
    isVoteScript poll voteScript = .ok true ∧ daoIndices voteCell.data = .ok [1] ∧
    readBallot voteCell.data = .ok (1, 100) := by
  decide +kernel

/-- One output cannot be confused with another. -/
theorem voteTx_single {tx : ChainTx} (h : tx.outputs = [voteCell]) (k : Nat) (other : Cell)
    (s : Bytes) (hother : tx.outputs[k]? = some other) (_ : other.type_ = some s)
    (_ : isVoteScript poll s = .ok true) : k = 0 := by
  obtain ⟨hk, -⟩ := List.getElem?_eq_some_iff.mp hother
  simp [h] at hk
  exact hk

/-- The script sums Alice's deposit behind the dep group. -/
theorem groupVote_summed : Summed (resolvedVote groupVoteTx) voteCell.data [1]
    [(outPoint 6 0, ⟨100, lockOf 5, some daoScript, List.replicate 8 0⟩)] := by
  obtain ⟨-, -, -, hindices, hballot⟩ := votes_read
  exact ⟨hindices, rfl, _, hballot, rfl⟩

end Sample

open Sample in
/-- The script accepts the vote and sums the deposit in the group; the tally
records the vote and inserts no out point. -/
theorem groupVote_disagrees : RawTransactionReader.verify false groupVote = .ok () ∧
    ChainTx.ofRaw groupVote [] = .ok groupVoteTx ∧
    resolve live (fun _ => none) groupVoteTx = some (resolvedVote groupVoteTx) ∧
    isVoteScript Sample.poll voteScript = .ok true ∧
    VoteTypeScript.run (resolvedVote groupVoteTx) voteScript = .ok () ∧
    ∃ summed, Summed (resolvedVote groupVoteTx) voteCell.data [1] summed ∧
      summed.map Prod.fst = [outPoint 6 0] ∧
      ¬ Agrees Sample.poll groupVote voteCell summed := by
  obtain ⟨⟨hraw, htx, hresolve, hrun, hread⟩, -, hvote, -⟩ := votes_read
  refine ⟨hraw, htx, hresolve, hvote, hrun, _, groupVote_summed, rfl, ?_⟩
  intro h
  obtain ⟨inputs, w, hw, -, -, hnamed⟩ := h
  have hprocess := processTransaction_eq Sample.poll groupVote Maps.empty
  rw [hw Maps.empty, hread] at hprocess
  have hsame : castMaps (inputs.foldl spendInput Maps.empty) w =
      castMaps ([outPoint 7 0].foldl spendInput Maps.empty) ⟨lockOf 5, (1, 100), []⟩ :=
    Except.ok.inj hprocess
  have howner := owner_castMaps_empty [outPoint 7 0] ⟨lockOf 5, (1, 100), []⟩ (outPoint 6 0)
  rw [← hsame, owner_castMaps_empty] at howner
  have hmine : outPoint 6 0 ∈ w.named := (hnamed (outPoint 6 0)).mpr (by simp)
  simp [hmine] at howner

open Sample in
theorem vote_agreement_iff_codeVote :
    ∃ indices summed, Summed (resolvedVote codeVoteTx) voteCell.data indices summed ∧
      (Agrees Sample.poll codeVote voteCell summed ↔
        ∀ op, op ∈ selected (codeVoteTx.cellDeps.map CellDep.outPoint) indices ↔
          op ∈ selected ((resolvedVote codeVoteTx).cellDeps.map Prod.fst) indices) := by
  obtain ⟨-, ⟨hraw, htx, hresolve, hrun⟩, hvote, -⟩ := votes_read
  exact vote_agreement_iff hraw htx hresolve rfl rfl hvote (voteTx_single rfl) hrun

end CkbVote
