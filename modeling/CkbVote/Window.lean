import CkbVote.CountVote
import CkbVote.Replay

/-!
# The window of transactions behind a count

The loop of `count_vote` reads bytes and updates its maps in one pass.  Here
the two are taken apart.  `window` reads every transaction of the block vector
into a `Replay.Tx`: the out points its inputs spend and the recognised votes
among its outputs, each with the out points its `dao_index` names in range.
`tallyBlocks_eq` then states that the loop is that reading followed by a fold
over the list, panics included, and `voteMap_tally` identifies the resulting
maps with the abstract book of `Replay`.

A window can be read whenever the block vector verifies in full
(`window_of_verify`) and whenever the loop comes to its end
(`window_of_tally`).
-/

namespace CkbVote

open Octets Molecule

/-- Direction byte and amount. -/
abbrev Ballot := UInt8 × Nat

/-- A recognised vote. -/
abbrev CastVote := Replay.Vote Bytes OutPoint Ballot

/-- A transaction of the window. -/
abbrev WindowTx := Replay.Tx Bytes OutPoint Ballot

section Code

variable [Blake2b]

/-! ## Reading -/

/-- The out points that the entries of `dao_index` name, in order, the entries
out of range left out. -/
def readNamed (cellDeps daoIndex : Bytes) : Run (List OutPoint) := do
  let named ← readRange (namedOutPoint cellDeps daoIndex) (← FixVec.itemCount daoIndex) 0
  .ok (named.filterMap id)

def readVote (cellDeps lock vote : Bytes) : Run CastVote := do
  let direction ← firstByte (← VoteReader.vote vote)
  let amount ← fromLeBytes 8 "Uint64 is 8 bytes" (← VoteReader.amount vote)
  let named ← readNamed cellDeps (← VoteReader.daoIndex vote)
  .ok ⟨lock, (direction, amount), named⟩

/-- Output `j` as a recognised vote, when it is one. -/
def readOutput (poll : Poll) (outputs outputsData cellDeps : Bytes) (j : Nat) :
    Run (Option CastVote) := do
  match ← voteOutput poll outputs outputsData j with
  | none => .ok none
  | some (lock, vote) =>
      let w ← readVote cellDeps lock vote
      .ok (some w)

def readTx (poll : Poll) (raw : Bytes) : Run WindowTx := do
  let inputs ← RawTransactionReader.inputs raw
  let spent ← readRange (inputOutPoint inputs) (← FixVec.itemCount inputs) 0
  let outputs ← RawTransactionReader.outputs raw
  let outputsData ← RawTransactionReader.outputsData raw
  let cellDeps ← RawTransactionReader.cellDeps raw
  let votes ← readRange (readOutput poll outputs outputsData cellDeps) (← itemCount outputs) 0
  .ok ⟨spent, votes.filterMap id⟩

def readBlock (poll : Poll) (block : Bytes) : Run (List WindowTx) := do
  let txs ← BlockReader.transactions block
  readRange (fun k => do
    let raw ← rawTransaction txs k
    readTx poll raw) (← itemCount txs) 0

/-- The transactions of all blocks, flattened in block and transaction order. -/
def window (poll : Poll) (blocks : Bytes) : Run (List WindowTx) := do
  let txs ← readRange (fun i => do
    let block ← blockAt blocks i
    readBlock poll block) (← itemCount blocks) 0
  .ok txs.flatten

/-! ## Updating -/

/-- What recording one recognised vote does to the maps. -/
def castMaps (maps : Maps) (w : CastVote) : Maps where
  voteMap := maps.voteMap.insert (blake2b256 w.lock) w.ballot
  daoOutpointToVoter :=
    w.named.foldl (fun owners op => owners.insert op (blake2b256 w.lock)) maps.daoOutpointToVoter

/-- What one transaction does to the maps. -/
def applyMaps (maps : Maps) (tx : WindowTx) : Maps :=
  tx.votes.foldl castMaps (tx.inputs.foldl spendInput maps)

/-! ## The loop is a reading and a fold -/

omit [Blake2b] in
/-- Inserting a named out point is reading it, then inserting it if it is in
range. -/
theorem insertNamed_eq (cellDeps daoIndex : Bytes) (voter : Hash32) (k : Nat)
    (owners : Std.ExtTreeMap OutPoint Hash32) :
    insertNamed cellDeps daoIndex voter k owners =
      namedOutPoint cellDeps daoIndex k >>= fun named =>
        .ok ((named.map fun op => owners.insert op voter).getD owners) := by
  unfold insertNamed
  cases namedOutPoint cellDeps daoIndex k with
  | error e => rfl
  | ok named => cases named <;> rfl

/-- Recording a vote is reading it, then casting it into the maps. -/
theorem recordVote_eq (cellDeps lock vote : Bytes) (maps : Maps) :
    recordVote cellDeps lock vote maps =
      readVote cellDeps lock vote >>= fun w => .ok (castMaps maps w) := by
  have hloop := fun daoIndex =>
    forRange_pure _ _ _ (insertNamed_eq cellDeps daoIndex (blake2b256 lock))
  simp only [recordVote, readVote, readNamed, hloop, foldl_filterMap_id, bind_assoc, ok_bind,
    castMaps]

/-- Processing an output is reading the vote in it, then casting it if there is
one. -/
theorem processOutput_eq (poll : Poll) (outputs outputsData cellDeps : Bytes) (j : Nat)
    (maps : Maps) : processOutput poll outputs outputsData cellDeps j maps =
      readOutput poll outputs outputsData cellDeps j >>= fun w =>
        .ok ((w.map (castMaps maps)).getD maps) := by
  unfold processOutput readOutput
  cases voteOutput poll outputs outputsData j with
  | error e => rfl
  | ok vote =>
      cases vote with
      | none => rfl
      | some vote =>
          simp only [ok_bind, recordVote_eq, bind_assoc, Option.map_some, Option.getD_some]

/-- Processing a transaction is reading its window entry, then applying it. -/
theorem processTransaction_eq (poll : Poll) (raw : Bytes) (maps : Maps) :
    processTransaction poll raw maps =
      readTx poll raw >>= fun tx => .ok (applyMaps maps tx) := by
  have hinputs := fun inputs =>
    forRange_pure (processInput inputs) (inputOutPoint inputs) spendInput fun _ _ => rfl
  have houtputs := fun outputs outputsData cellDeps =>
    forRange_pure _ _ _ (processOutput_eq poll outputs outputsData cellDeps)
  simp only [processTransaction, readTx, hinputs, houtputs, foldl_filterMap_id, bind_assoc,
    ok_bind, applyMaps]

/-- Processing a block is reading its transactions, then applying them in order.
-/
theorem processBlock_eq (poll : Poll) (block : Bytes) (maps : Maps) :
    processBlock poll block maps =
      readBlock poll block >>= fun txs => .ok (txs.foldl applyMaps maps) := by
  have hloop := fun txs => forRange_pure
    (fun k maps => do
      let raw ← rawTransaction txs k
      processTransaction poll raw maps)
    (fun k => do
      let raw ← rawTransaction txs k
      readTx poll raw)
    applyMaps (fun k maps => by simp only [processTransaction_eq, bind_assoc])
  simp only [processBlock, readBlock, hloop, bind_assoc]

/-- **The loop of `count_vote` is a reading followed by a fold.**  The two
sides agree on panics as well. -/
theorem tallyBlocks_eq (poll : Poll) (blocks : Bytes) :
    tallyBlocks poll blocks =
      window poll blocks >>= fun txs => .ok (txs.foldl applyMaps Maps.empty) := by
  have hloop := forRange_pure
    (fun i maps => do
      let block ← blockAt blocks i
      processBlock poll block maps)
    (fun i => do
      let block ← blockAt blocks i
      readBlock poll block)
    (fun maps txs => txs.foldl applyMaps maps)
    (fun i maps => by simp only [processBlock_eq, bind_assoc])
  simp only [tallyBlocks, window, hloop, bind_assoc, ok_bind, List.foldl_flatten]

/-- A loop that comes to its end has read its window. -/
theorem window_of_tally {poll : Poll} {blocks : Bytes} {maps : Maps}
    (h : tallyBlocks poll blocks = .ok maps) : ∃ txs, window poll blocks = .ok txs := by
  rw [tallyBlocks_eq] at h
  obtain ⟨txs, hwindow, -⟩ := bind_eq_ok.mp h
  exact ⟨txs, hwindow⟩

/-! ## The maps are the abstract book -/

/-- The two maps as lookup functions. -/
def Maps.toBook (maps : Maps) : Replay.Book Hash32 OutPoint Ballot where
  standing v := maps.voteMap[v]?
  owner x := maps.daoOutpointToVoter[x]?

omit [Blake2b] in
theorem Maps.toBook_empty : Maps.empty.toBook = Replay.Book.empty := by
  simp [Maps.toBook, Maps.empty, Replay.Book.empty]

omit [Blake2b] in
/-- Spending an input on the maps spends the deposit in the book. -/
theorem toBook_spendInput (maps : Maps) (op : OutPoint) :
    (spendInput maps op).toBook = maps.toBook.spend op := by
  unfold spendInput Replay.Book.spend Maps.toBook
  cases howner : maps.daoOutpointToVoter[op]? with
  | none =>
      simp only [Replay.Book.mk.injEq]
      refine ⟨funext fun v => by simp [howner], funext fun x => ?_⟩
      by_cases hx : x = op
      · simp [hx, howner]
      · simp [hx]
  | some v =>
      simp only [Replay.Book.mk.injEq]
      refine ⟨funext fun v' => ?_, funext fun x => ?_⟩
      · simp [Std.ExtTreeMap.getElem?_erase, howner]
      · by_cases hx : op = x
        · simp [hx]
        · simp [Std.ExtTreeMap.getElem?_erase, hx, Ne.symm hx]

/-- Casting into the maps casts into the book. -/
theorem toBook_castMaps (maps : Maps) (w : CastVote) :
    (castMaps maps w).toBook = maps.toBook.cast blake2b256 w := by
  have howners : ∀ (named : List OutPoint) (owners : Std.ExtTreeMap OutPoint Hash32)
      (x : OutPoint), (named.foldl (fun owners op => owners.insert op (blake2b256 w.lock))
        owners)[x]? = if x ∈ named then some (blake2b256 w.lock) else owners[x]? := by
    intro named
    induction named with
    | nil => simp
    | cons op named ih =>
        intro owners x
        rw [List.foldl_cons, ih, Std.ExtTreeMap.getElem?_insert]
        by_cases hop : op = x
        · by_cases hx : x ∈ named <;> simp [hx, hop]
        · simp [hop, Ne.symm hop]
  simp only [castMaps, Replay.Book.cast, Maps.toBook, Replay.Book.mk.injEq]
  refine ⟨funext fun v => ?_, funext fun x => howners _ _ x⟩
  simp [Std.ExtTreeMap.getElem?_insert]

omit [Blake2b] in
/-- Spending all inputs on the maps spends them in the book. -/
theorem toBook_foldl_spendInput (inputs : List OutPoint) (maps : Maps) :
    (inputs.foldl spendInput maps).toBook = inputs.foldl Replay.Book.spend maps.toBook := by
  induction inputs generalizing maps with
  | nil => rfl
  | cons op inputs ih => rw [List.foldl_cons, ih, toBook_spendInput]; rfl

/-- Casting all votes into the maps casts them in the book. -/
theorem toBook_foldl_castMaps (votes : List CastVote) (maps : Maps) :
    (votes.foldl castMaps maps).toBook =
      votes.foldl (Replay.Book.cast blake2b256) maps.toBook := by
  induction votes generalizing maps with
  | nil => rfl
  | cons w votes ih => rw [List.foldl_cons, ih, toBook_castMaps]; rfl

/-- A transaction acts on the maps as it does on the book. -/
theorem toBook_applyMaps (maps : Maps) (tx : WindowTx) :
    (applyMaps maps tx).toBook = maps.toBook.apply blake2b256 tx := by
  rw [applyMaps, toBook_foldl_castMaps, toBook_foldl_spendInput, Replay.Book.apply]

/-- The maps after a list of transactions look up what the replayed book holds. -/
theorem toBook_foldl (txs : List WindowTx) :
    (txs.foldl applyMaps Maps.empty).toBook = Replay.replay blake2b256 txs := by
  induction txs using List.reverseRecOn with
  | nil => exact Maps.toBook_empty
  | append_singleton txs tx ih =>
      rw [List.foldl_append, List.foldl_cons, List.foldl_nil, toBook_applyMaps, ih]
      simp [Replay.replay]

/-- **The tally refines the replayed book.**  Once the window reads, the loop
ends, and its vote map holds the ballots that stand. -/
theorem voteMap_tally {poll : Poll} {blocks : Bytes} {txs : List WindowTx}
    (h : window poll blocks = .ok txs) :
    ∃ maps, tallyBlocks poll blocks = .ok maps ∧
      ∀ v : Hash32, maps.voteMap[v]? = (Replay.replay blake2b256 txs).standing v := by
  refine ⟨txs.foldl applyMaps Maps.empty, by rw [tallyBlocks_eq, h]; rfl, fun v => ?_⟩
  rw [← toBook_foldl txs]
  rfl

end Code

end CkbVote
