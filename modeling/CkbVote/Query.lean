import CkbVote.Paging
import CkbVote.SdkHistory

/-!
# The query

`query` lists the latest proposals and the votes on each, spent ones included.
It searches the transactions of a node by type script, gets a row for every input
and output under the script, and works out from the rows alone what is live: an
output is, unless it is the previous output of a row of an input.

On a node that has indexed a history the answer is exact (`query_exact`): every
proposal and every vote is listed once, and `ACTIVE` are those whose cell is live.
The one thing that the list leaves out is a proposal whose receiver has a hash
type that `ccc.Script` does not know, because its data does not decode.
-/

namespace CkbVote

open Octets Molecule VoteTypeScript

namespace Sdk

/-! ## Requests and answers -/

inductive IoType
  | input
  | output
deriving DecidableEq, Repr

/-- One row returned by `get_transactions`. -/
structure RpcTxWithCell where
  txHash : Hash32
  blockNumber : Nat
  ioType : IoType
  ioIndex : Nat
deriving DecidableEq

structure RpcCellOutput where
  capacity : Nat
  lock : Bytes
  type_ : Option Bytes

structure RpcFullTx where
  /-- The previous outputs. -/
  inputs : List OutPoint
  outputs : List RpcCellOutput
  outputsData : List Bytes

inductive SearchMode
  | byPrefix
  | exact
deriving DecidableEq, Repr

/-- A search by type script. -/
structure SearchKey where
  codeHash : Hash32
  hashType : HashType
  args : Bytes
  searchMode : SearchMode

abbrev Cursor := List Char

structure QueryClient where
  /-- `get_transactions`, oldest first: key, page size and cursor. -/
  getTransactions : SearchKey → Nat → Option Cursor → Option (List RpcTxWithCell × Cursor)
  getTransaction : Hash32 → Option RpcFullTx

/-! ## The command -/

def pageSize : Nat := 100

/-- `txCache`, which the searches share. -/
abbrev TxCache := List (Hash32 × RpcFullTx)

/-- A proposal or a vote in the list. -/
structure CellInfo where
  outPoint : OutPoint
  cell : Cell
  decoded : Value
  blockNumber : Nat
  isLive : Bool

def buildCellFromTx (txHash : Hash32) (outputIdx : Nat) (fullTx : RpcFullTx) :
    Option (OutPoint × Cell) := do
  let output ← fullTx.outputs[outputIdx]?
  let outputData := fullTx.outputsData[outputIdx]?.getD []
  some (outPointOf txHash outputIdx, ⟨output.capacity, output.lock, output.type_, outputData⟩)

/-- The previous output of a row of an input. -/
def consumedBy (row : RpcTxWithCell × RpcFullTx) : Option OutPoint :=
  match row.1.ioType with
  | .input => row.2.inputs[row.1.ioIndex]?
  | .output => none

/-- The record for a row of an output.  Cells without data and malformed cells are
skipped. -/
def infoOf (codec : Codec) (consumedSet : List OutPoint) (row : RpcTxWithCell × RpcFullTx) :
    Option CellInfo :=
  match row.1.ioType with
  | .input => none
  | .output => do
      let (outPoint, cell) ← buildCellFromTx row.1.txHash row.1.ioIndex row.2
      if cell.data = [] then none
      else
        let decoded ← codec.decode cell.data
        some ⟨outPoint, cell, decoded, row.1.blockNumber, !consumedSet.contains outPoint⟩

section Command

variable (lib : Library) (client : QueryClient) (config : NetworkConfig) (fuel : Nat)

/-- All rows for a script; without args those for every script of the code. -/
def getAllTxEntries (info : ScriptInfo) (args : Bytes) : Option (List RpcTxWithCell) :=
  let searchMode := if args = [] then .byPrefix else .exact
  Paging.readAll (client.getTransactions ⟨info.codeHash, info.hashType, args, searchMode⟩ pageSize)
    pageSize fuel none []

def prefetchTxs : List Hash32 → TxCache → Option TxCache
  | [], cache => some cache
  | hash :: hashes, cache =>
      match cache.lookup hash with
      | some _ => prefetchTxs hashes cache
      | none => do
          let fullTx ← client.getTransaction hash
          prefetchTxs hashes ((hash, fullTx) :: cache)

/-- The search that the two collectors have in common. -/
def collect (codec : Codec) (info : ScriptInfo) (args : Bytes) (cache : TxCache) :
    Option (List CellInfo × TxCache) := do
  let entries ← getAllTxEntries client fuel info args
  let cache ← prefetchTxs client (entries.map RpcTxWithCell.txHash) cache
  let rows ← entries.mapM fun entry => (cache.lookup entry.txHash).map fun fullTx => (entry, fullTx)
  let consumedSet := rows.filterMap consumedBy
  some (rows.filterMap (infoOf codec consumedSet), cache)

def collectProposals (cache : TxCache) : Option (List CellInfo × TxCache) :=
  collect client fuel (proposalCodec lib.toCcc) config.proposalTypeScript [] cache

def collectVotesForProposal (voteTypeArgs : Bytes) (cache : TxCache) :
    Option (List CellInfo × TxCache) :=
  collect client fuel (voteCodec lib) config.voteTypeScript voteTypeArgs cache

variable [Blake2b]

/-- The votes for each proposal.  The calls run at once in the source; here they
run one after the other, and what a call returns does not depend on the cache. -/
def votesPerProposal : List CellInfo → TxCache → Option (List (CellInfo × List CellInfo))
  | [], _ => some []
  | proposal :: proposals, cache => do
      let typeScript ← proposal.cell.type_
      let voteTypeArgs := (blake160 typeScript).val
      let (votes, cache) ← collectVotesForProposal lib client config fuel voteTypeArgs cache
      let rest ← votesPerProposal proposals cache
      some ((proposal, votes) :: rest)

/-- What is printed: the latest proposals, each with its votes. -/
def query (count : Nat) : Option (List (CellInfo × List CellInfo)) := do
  let (allProposals, cache) ← collectProposals lib client config fuel []
  let sorted := allProposals.mergeSort fun a b => decide (b.blockNumber ≤ a.blockNumber)
  votesPerProposal lib client config fuel (sorted.take count) cache

end Command

/-- The direction as it is printed. -/
def voteText (decoded : Value) : String :=
  match property "vote" decoded with
  | some (.num 1) => "YES"
  | _ => "NO"

/-! ## The node -/

/-- The script refers to the code of the contract. -/
def ScriptInfo.Refers (info : ScriptInfo) (script : Bytes) : Prop :=
  ScriptReader.codeHash script = .ok info.codeHash.val ∧
    ScriptReader.hashType script = .ok [info.hashType.byte]

def SearchMode.Matches : SearchMode → (wanted args : Bytes) → Prop
  | .byPrefix, wanted, args => wanted <+: args
  | .exact, wanted, args => args = wanted

/-- What a search finds. -/
def SearchKey.Finds (key : SearchKey) (script : Bytes) : Prop :=
  (ScriptReader.codeHash script = .ok key.codeHash.val ∧
    ScriptReader.hashType script = .ok [key.hashType.byte]) ∧
    ∃ args, scriptArgs script = .ok args ∧ key.searchMode.Matches key.args args

instance (mode : SearchMode) (wanted args : Bytes) : Decidable (mode.Matches wanted args) :=
  match mode with
  | .byPrefix => inferInstanceAs (Decidable (wanted <+: args))
  | .exact => inferInstanceAs (Decidable (args = wanted))

instance (key : SearchKey) (script : Bytes) : Decidable (key.Finds script) :=
  match h : scriptArgs script with
  | .ok args =>
      decidable_of_iff ((ScriptReader.codeHash script = .ok key.codeHash.val ∧
        ScriptReader.hashType script = .ok [key.hashType.byte]) ∧
          key.searchMode.Matches key.args args)
        (and_congr_right fun _ => ⟨fun hm => ⟨args, h, hm⟩, fun ⟨_, hok, hm⟩ =>
          Except.ok.inj (h.symm.trans hok) ▸ hm⟩)
  | .error _ => isFalse fun ⟨_, _, hok, _⟩ => nomatch h.symm.trans hok

def fullTx (tx : ChainTx) : RpcFullTx :=
  ⟨tx.inputs.map CellInput.previousOutput,
    tx.outputs.map fun cell => ⟨cell.capacity, cell.lock, cell.type_⟩, tx.outputs.map Cell.data⟩

/-- The rows of a history.  An input has the type script of the cell it spends;
`blockOf` is the block of a transaction. -/
inductive Indexed (live0 : Live) (txs : List ChainTx) (blockOf : Nat → Nat) (key : SearchKey) :
    RpcTxWithCell → Prop
  | input {t i : Nat} {tx : ChainTx} {input : CellInput} {cell : Cell} {script : Bytes}
      (htx : txs[t]? = some tx) (hinput : tx.inputs[i]? = some input)
      (hlive : liveAt live0 txs t input.previousOutput = some cell)
      (htype : cell.type_ = some script) (hfinds : key.Finds script) :
      Indexed live0 txs blockOf key ⟨tx.hash, blockOf t, .input, i⟩
  | output {t i : Nat} {tx : ChainTx} {cell : Cell} {script : Bytes} (htx : txs[t]? = some tx)
      (hcell : tx.outputs[i]? = some cell) (htype : cell.type_ = some script)
      (hfinds : key.Finds script) : Indexed live0 txs blockOf key ⟨tx.hash, blockOf t, .output, i⟩

/-- A node that has indexed a history, and pages through it for whoever asks with
the cursors that it has returned. -/
structure QueryClient.Documented (client : QueryClient) (live0 : Live) (txs : List ChainTx)
    (blockOf : Nat → Nat) : Prop where
  pages : ∀ key, ∃ entries position,
    Paging.Serves (client.getTransactions key pageSize) pageSize entries position ∧
      entries.Nodup ∧ ∀ entry, entry ∈ entries ↔ Indexed live0 txs blockOf key entry
  transaction : ∀ tx ∈ txs, client.getTransaction tx.hash = some (fullTx tx)

/-- What the codecs of votes read. -/
structure Library.Reads (lib : Library) : Prop where
  uint8_decode : ∀ n : UInt8, lib.uint8.decode [n] = some (.num n.toNat)
  uint16Vec_decode : ∀ s, Uint16VecReader.verify false s = .ok () →
    ∃ v, lib.uint16Vec.decode s = some v

/-! ## The cache -/

section Cache

variable {client : QueryClient} {hash : Hash32} {hashes : List Hash32} {cache : TxCache}

/-- The cache holds what the node answers. -/
def TxCache.Agrees (client : QueryClient) (cache : TxCache) : Prop :=
  ∀ hash fullTx, cache.lookup hash = some fullTx → client.getTransaction hash = some fullTx

theorem lookup_cons (fullTx : RpcFullTx) (other : Hash32) :
    ((hash, fullTx) :: cache : TxCache).lookup other =
      if other = hash then some fullTx else cache.lookup other := by
  by_cases h : other = hash
  · rw [if_pos h, h, List.lookup_cons_self]
  · rw [if_neg h, List.lookup_cons, beq_false_of_ne h]

/-- Fetching keeps what is there and adds what was asked for. -/
theorem prefetchTxs_agrees (hcache : cache.Agrees client)
    (hserved : ∀ hash ∈ hashes, ∃ fullTx, client.getTransaction hash = some fullTx) :
    ∃ cache', prefetchTxs client hashes cache = some cache' ∧ cache'.Agrees client ∧
      (∀ hash fullTx, cache.lookup hash = some fullTx → cache'.lookup hash = some fullTx) ∧
      ∀ hash ∈ hashes, cache'.lookup hash = client.getTransaction hash := by
  induction hashes generalizing cache with
  | nil => exact ⟨cache, rfl, hcache, fun _ _ h => h, fun hash h => nomatch h⟩
  | cons first hashes ih =>
      obtain ⟨fullTx, hfullTx⟩ := hserved first List.mem_cons_self
      have hserved := fun hash h => hserved hash (List.mem_cons_of_mem first h)
      cases hlookup : cache.lookup first with
      | some cached =>
          obtain ⟨cache', heq, hagrees, hkeeps, hadds⟩ := ih hcache hserved
          refine ⟨cache', by rw [prefetchTxs, hlookup]; exact heq, hagrees, hkeeps, ?_⟩
          rintro hash (_ | ⟨_, h⟩)
          · rw [hkeeps _ _ hlookup, hcache _ _ hlookup]
          · exact hadds hash h
      | none =>
          have hcons : TxCache.Agrees client ((first, fullTx) :: cache) := by
            intro hash other h
            rw [lookup_cons] at h
            split_ifs at h with hhash
            · rw [hhash, hfullTx, h]
            · exact hcache _ _ h
          obtain ⟨cache', heq, hagrees, hkeeps, hadds⟩ := ih hcons hserved
          refine ⟨cache', by simp [prefetchTxs, hlookup, hfullTx, heq], hagrees, ?_, ?_⟩
          · intro hash other h
            apply hkeeps
            rw [lookup_cons, if_neg (fun hhash => by rw [hhash, hlookup] at h; cases h), h]
          · rintro hash (_ | ⟨_, h⟩)
            · rw [hkeeps first fullTx (by rw [lookup_cons, if_pos rfl]), hfullTx]
            · exact hadds hash h

end Cache

/-! ## The rows -/

section Rows

variable {client : QueryClient} {live0 : Live} {txs : List ChainTx} {blockOf : Nat → Nat}
  {key : SearchKey} {entry : RpcTxWithCell} {entries : List RpcTxWithCell} {tx : ChainTx}
  {op : OutPoint} {cell : Cell}

/-- An entry of the index points at a transaction of the history. -/
theorem Indexed.transaction (h : Indexed live0 txs blockOf key entry) :
    ∃ tx ∈ txs, entry.txHash = tx.hash := by
  cases h with
  | input htx => exact ⟨_, List.mem_of_getElem? htx, rfl⟩
  | output htx => exact ⟨_, List.mem_of_getElem? htx, rfl⟩

/-- A row with its transaction. -/
def rowOf (client : QueryClient) (entry : RpcTxWithCell) : RpcTxWithCell × RpcFullTx :=
  (entry, (client.getTransaction entry.txHash).getD ⟨[], [], []⟩)

/-- The row of an entry holds the transaction as the node serves it. -/
theorem rowOf_eq (hclient : client.Documented live0 txs blockOf) (htx : tx ∈ txs)
    (hhash : entry.txHash = tx.hash) : rowOf client entry = (entry, fullTx tx) := by
  rw [rowOf, hhash, hclient.transaction tx htx]
  rfl

/-- The cell built from a served transaction is the output at that index. -/
theorem buildCellFromTx_fullTx (tx : ChainTx) (i : Nat) :
    buildCellFromTx tx.hash i (fullTx tx) =
      tx.outputs[i]?.map fun cell => (outPointOf tx.hash i, cell) := by
  cases hcell : tx.outputs[i]? with
  | none => simp [buildCellFromTx, fullTx, hcell]
  | some cell => simp [buildCellFromTx, fullTx, hcell]

/-- What the rows have consumed. -/
theorem mem_consumedSet (hclient : client.Documented live0 txs blockOf)
    (hentries : ∀ entry, entry ∈ entries ↔ Indexed live0 txs blockOf key entry) :
    op ∈ (entries.map (rowOf client)).filterMap consumedBy ↔
      ∃ t cell script, SpentAt txs t op ∧ liveAt live0 txs t op = some cell ∧
        cell.type_ = some script ∧ key.Finds script := by
  rw [List.filterMap_map, List.mem_filterMap]
  constructor
  · rintro ⟨entry, hentry, hop⟩
    cases (hentries entry).mp hentry with
    | @input t i tx input cell script htx hinput hlive htype hfinds =>
        have htxMem := List.mem_of_getElem? htx
        have hop : (fullTx tx).inputs[i]? = some op := by
          rw [Function.comp_apply, rowOf_eq hclient htxMem rfl] at hop
          exact hop
        rw [fullTx, List.getElem?_map, hinput, Option.map_some, Option.some.injEq] at hop
        subst hop
        exact ⟨t, cell, script, ⟨tx, htx, List.mem_map_of_mem (List.mem_of_getElem? hinput)⟩, hlive,
          htype, hfinds⟩
    | output htx =>
        rw [Function.comp_apply, rowOf_eq hclient (List.mem_of_getElem? htx) rfl] at hop
        cases hop
  · rintro ⟨t, cell, script, ⟨tx, htx, hmem⟩, hlive, htype, hfinds⟩
    obtain ⟨input, hinput, rfl⟩ := List.mem_map.mp hmem
    obtain ⟨i, hi⟩ := List.getElem?_of_mem hinput
    refine ⟨⟨tx.hash, blockOf t, .input, i⟩, (hentries _).mpr (.input htx hi hlive htype hfinds),
      ?_⟩
    rw [Function.comp_apply, rowOf_eq hclient (List.mem_of_getElem? htx) rfl]
    show (fullTx tx).inputs[i]? = _
    rw [fullTx, List.getElem?_map, hi]
    rfl

/-- **Live or consumed.**  The rows under a script tell what is live. -/
theorem live_iff_not_consumed (hdistinct : DistinctHashes live0 txs)
    (hinputs : ∀ t op, SpentAt txs t op → ∃ cell, liveAt live0 txs t op = some cell)
    (hclient : client.Documented live0 txs blockOf)
    (hentries : ∀ entry, entry ∈ entries ↔ Indexed live0 txs blockOf key entry) {t i : Nat}
    {script : Bytes} (htx : txs[t]? = some tx) (hcell : tx.outputs[i]? = some cell)
    (htype : cell.type_ = some script) (hfinds : key.Finds script) :
    outPointOf tx.hash i ∉ (entries.map (rowOf client)).filterMap consumedBy ↔
      liveAt live0 txs txs.length (outPointOf tx.hash i) = some cell := by
  have hcreated := hdistinct.live_of_output htx hcell
  obtain ⟨ht, -⟩ := List.getElem?_eq_some_iff.mp htx
  rw [mem_consumedSet hclient hentries]
  constructor
  · intro hconsumed
    have hend := hdistinct.live_of_unspent hcreated (txs.length - (t + 1)) ?_
    · rwa [Nat.add_sub_cancel' ht] at hend
    · intro t' _ _ hspent
      obtain ⟨cell', hlive⟩ := hinputs t' _ hspent
      obtain rfl := hdistinct.live_unique hcreated hlive
      exact hconsumed ⟨t', cell, script, hspent, hlive, htype, hfinds⟩
  · rintro hend ⟨t', cell', script', hspent, hlive, -⟩
    have hgone := hdistinct.gone_of_spent hlive hspent (txs.length - (t' + 1))
    obtain ⟨tx', htx', -⟩ := hspent
    obtain ⟨ht', -⟩ := List.getElem?_eq_some_iff.mp htx'
    rw [Nat.add_sub_cancel' ht', hend] at hgone
    cases hgone

/-- What is recorded about output `i` of transaction `t`. -/
structure Recorded (live0 : Live) (txs : List ChainTx) (blockOf : Nat → Nat) (codec : Codec)
    (Found : Bytes → Prop) (info : CellInfo) (t i : Nat) : Prop where
  output : ∃ tx, txs[t]? = some tx ∧ tx.outputs[i]? = some info.cell ∧
    info.outPoint = outPointOf tx.hash i
  found : ∃ script, info.cell.type_ = some script ∧ Found script
  decoded : codec.decode info.cell.data = some info.decoded
  block : info.blockNumber = blockOf t
  live : info.isLive = true ↔ liveAt live0 txs txs.length info.outPoint = some info.cell

/-- The records that a search makes. -/
def infosOf (client : QueryClient) (codec : Codec) (entries : List RpcTxWithCell) : List CellInfo :=
  (entries.map (rowOf client)).filterMap
    (infoOf codec ((entries.map (rowOf client)).filterMap consumedBy))

/-- A line for an output tells its cell, out point, decoded data and block, and
whether it is in the set of consumed ones. -/
theorem infoOf_fullTx {codec : Codec} {consumedSet : List OutPoint} {info : CellInfo} {b i : Nat} :
    infoOf codec consumedSet (⟨tx.hash, b, .output, i⟩, fullTx tx) = some info ↔
      tx.outputs[i]? = some info.cell ∧ info.outPoint = outPointOf tx.hash i ∧ info.cell.data ≠ [] ∧
        codec.decode info.cell.data = some info.decoded ∧ info.blockNumber = b ∧
        info.isLive = decide (outPointOf tx.hash i ∉ consumedSet) := by
  obtain ⟨outPoint, cell, decoded, blockNumber, isLive⟩ := info
  have hcontains : ∀ op, (!consumedSet.contains op) = decide (op ∉ consumedSet) := fun _ => by simp
  simp only [infoOf, buildCellFromTx_fullTx, hcontains]
  cases hcell : tx.outputs[i]? with
  | none => simp
  | some output =>
      simp only [Option.map_some, Option.bind_eq_bind, Option.bind_some]
      split_ifs with hdata
      · grind
      · simp only [Option.bind_eq_some_iff, Option.some.injEq, CellInfo.mk.injEq]
        grind

/-- **Each record once**, for every output under the script that decodes. -/
theorem mem_infosOf (hdistinct : DistinctHashes live0 txs)
    (hinputs : ∀ t op, SpentAt txs t op → ∃ cell, liveAt live0 txs t op = some cell)
    (hclient : client.Documented live0 txs blockOf)
    (hentries : ∀ entry, entry ∈ entries ↔ Indexed live0 txs blockOf key entry) {codec : Codec}
    {info : CellInfo} :
    info ∈ infosOf client codec entries ↔
      info.cell.data ≠ [] ∧ ∃ t i, Recorded live0 txs blockOf codec key.Finds info t i := by
  rw [infosOf, List.mem_filterMap]
  constructor
  · rintro ⟨row, hrow, hinfo⟩
    obtain ⟨entry, hentry, rfl⟩ := List.mem_map.mp hrow
    cases (hentries entry).mp hentry with
    | input htx =>
        rw [rowOf_eq hclient (List.mem_of_getElem? htx) rfl] at hinfo
        cases hinfo
    | @output t i tx cell script htx hcell htype hfinds =>
        rw [rowOf_eq hclient (List.mem_of_getElem? htx) rfl, infoOf_fullTx] at hinfo
        obtain ⟨hcell', hop, hdata, hdecode, hblock, hlive⟩ := hinfo
        obtain rfl := Option.some.inj (hcell.symm.trans hcell')
        refine ⟨hdata, t, i, ⟨tx, htx, hcell, hop⟩, ⟨script, htype, hfinds⟩, hdecode, hblock, ?_⟩
        rw [hlive, decide_eq_true_iff, hop]
        exact live_iff_not_consumed hdistinct hinputs hclient hentries htx hcell htype hfinds
  · rintro ⟨hdata, t, i, ⟨tx, htx, hcell, hop⟩, ⟨script, htype, hfinds⟩, hdecode, hblock, hlive⟩
    refine ⟨rowOf client ⟨tx.hash, blockOf t, .output, i⟩, List.mem_map_of_mem
      ((hentries _).mpr (.output htx hcell htype hfinds)), ?_⟩
    rw [rowOf_eq hclient (List.mem_of_getElem? htx) rfl, infoOf_fullTx]
    refine ⟨hcell, hop, hdata, hdecode, hblock, ?_⟩
    rw [Bool.eq_iff_iff, decide_eq_true_iff, hlive, hop]
    exact (live_iff_not_consumed hdistinct hinputs hclient hentries htx hcell htype hfinds).symm

/-- No cell is listed twice. -/
theorem nodup_infosOf (hdistinct : DistinctHashes live0 txs)
    (hclient : client.Documented live0 txs blockOf) (hnodup : entries.Nodup)
    (hentries : ∀ entry, entry ∈ entries ↔ Indexed live0 txs blockOf key entry) (codec : Codec) :
    ((infosOf client codec entries).map CellInfo.outPoint).Nodup := by
  rw [infosOf, List.filterMap_map, List.Nodup, List.pairwise_map, List.pairwise_filterMap]
  refine hnodup.imp_of_mem ?_
  intro entry entry' hentry hentry' hne info hinfo info' hinfo' hop
  rw [Function.comp_apply] at hinfo hinfo'
  apply hne
  cases (hentries entry).mp hentry with
  | input htx =>
      rw [rowOf_eq hclient (List.mem_of_getElem? htx) rfl] at hinfo
      cases hinfo
  | output htx hcell =>
      cases (hentries entry').mp hentry' with
      | input htx' =>
          rw [rowOf_eq hclient (List.mem_of_getElem? htx') rfl] at hinfo'
          cases hinfo'
      | output htx' hcell' =>
          rw [rowOf_eq hclient (List.mem_of_getElem? htx) rfl, infoOf_fullTx] at hinfo
          rw [rowOf_eq hclient (List.mem_of_getElem? htx') rfl, infoOf_fullTx] at hinfo'
          have hops := hinfo.2.1.symm.trans (hop.trans hinfo'.2.1)
          obtain ⟨hi, -⟩ := List.getElem?_eq_some_iff.mp hcell
          obtain ⟨hi', -⟩ := List.getElem?_eq_some_iff.mp hcell'
          have hlt := hdistinct.outputs_lt _ (List.mem_of_getElem? htx)
          have hlt' := hdistinct.outputs_lt _ (List.mem_of_getElem? htx')
          obtain ⟨hhash, rfl⟩ := outPointOf_inj (hi.trans hlt) (hi'.trans hlt') hops
          obtain rfl := hdistinct.hash_inj _ _ _ _ htx htx' hhash
          rw [hhash]

end Rows

/-! ## One search -/

section Search

variable {client : QueryClient} {live0 : Live} {txs : List ChainTx} {blockOf : Nat → Nat}
  {codec : Codec} {Found Found' : Bytes → Prop} {infos : List CellInfo}

/-- Exactly the outputs that a search finds and a codec decodes. -/
structure Lists (live0 : Live) (txs : List ChainTx) (blockOf : Nat → Nat) (codec : Codec)
    (Found : Bytes → Prop) (infos : List CellInfo) : Prop where
  nodup : (infos.map CellInfo.outPoint).Nodup
  mem : ∀ info, info ∈ infos ↔
    info.cell.data ≠ [] ∧ ∃ t i, Recorded live0 txs blockOf codec Found info t i

def keyOf (info : ScriptInfo) (args : Bytes) : SearchKey :=
  ⟨info.codeHash, info.hashType, args, if args = [] then .byPrefix else .exact⟩

/-- **A search is exact**: with enough fuel for the pages, and whatever the cache
holds of the node's transactions. -/
theorem collect_eq (hdistinct : DistinctHashes live0 txs)
    (hinputs : ∀ t op, SpentAt txs t op → ∃ cell, liveAt live0 txs t op = some cell)
    (hclient : client.Documented live0 txs blockOf) (codec : Codec) (info : ScriptInfo)
    (args : Bytes) :
    ∃ bound infos, Lists live0 txs blockOf codec (keyOf info args).Finds infos ∧
      ∀ fuel ≥ bound, ∀ cache, TxCache.Agrees client cache → ∃ cache',
        collect client fuel codec info args cache = some (infos, cache') ∧
          cache'.Agrees client := by
  obtain ⟨entries, position, hserves, hnodup, hentries⟩ := hclient.pages (keyOf info args)
  refine ⟨entries.length / pageSize + 1, infosOf client codec entries,
    ⟨nodup_infosOf hdistinct hclient hnodup hentries codec,
      fun _ => mem_infosOf hdistinct hinputs hclient hentries⟩, ?_⟩
  intro fuel hfuel cache hcache
  have hread : getAllTxEntries client fuel info args = some entries :=
    Paging.readAll_eq hserves (by decide) hfuel
  have hserved : ∀ hash ∈ entries.map RpcTxWithCell.txHash, ∃ fullTx,
      client.getTransaction hash = some fullTx := by
    intro hash hhash
    obtain ⟨entry, hentry, rfl⟩ := List.mem_map.mp hhash
    obtain ⟨tx, htx, heq⟩ := Indexed.transaction ((hentries entry).mp hentry)
    exact ⟨fullTx tx, heq ▸ hclient.transaction tx htx⟩
  obtain ⟨cache', hfetch, hagrees, -, hadds⟩ := prefetchTxs_agrees hcache hserved
  have hrows : (entries.mapM fun entry =>
      (cache'.lookup entry.txHash).map fun fullTx => (entry, fullTx)) =
        some (entries.map (rowOf client)) := by
    rw [mapM_eq_some, List.map_map]
    refine List.map_congr_left fun entry hentry => ?_
    obtain ⟨fullTx, hfullTx⟩ := hserved _ (List.mem_map_of_mem hentry)
    rw [hadds _ (List.mem_map_of_mem hentry), Function.comp_apply, rowOf, hfullTx]
    rfl
  refine ⟨cache', ?_, hagrees⟩
  simp only [collect, hread, hfetch, hrows, Option.bind_eq_bind, Option.bind_some]
  rfl

/-- What a search finds may be told in other words. -/
theorem Lists.congr (h : Lists live0 txs blockOf codec Found infos)
    (hfound : ∀ t i cell script, OutputAt txs t i cell → cell.type_ = some script →
      (Found script ↔ Found' script)) : Lists live0 txs blockOf codec Found' infos := by
  have hrecorded : ∀ {info t i}, Recorded live0 txs blockOf codec Found info t i ↔
      Recorded live0 txs blockOf codec Found' info t i := by
    intro info t i
    constructor
    · rintro ⟨⟨tx, htx, hcell, hop⟩, ⟨script, htype, hscript⟩, hdecode, hblock, hlive⟩
      exact ⟨⟨tx, htx, hcell, hop⟩,
        ⟨script, htype, (hfound t i _ _ ⟨tx, htx, hcell⟩ htype).mp hscript⟩, hdecode, hblock, hlive⟩
    · rintro ⟨⟨tx, htx, hcell, hop⟩, ⟨script, htype, hscript⟩, hdecode, hblock, hlive⟩
      exact ⟨⟨tx, htx, hcell, hop⟩,
        ⟨script, htype, (hfound t i _ _ ⟨tx, htx, hcell⟩ htype).mpr hscript⟩, hdecode,
          hblock, hlive⟩
  refine ⟨h.nodup, fun info => ?_⟩
  rw [h.mem]
  simp only [hrecorded]

/-- An output that decodes is listed. -/
theorem Lists.of_decode (h : Lists live0 txs blockOf codec Found infos) {t i : Nat} {tx : ChainTx}
    {cell : Cell} {script : Bytes} (htx : txs[t]? = some tx)
    (hcell : tx.outputs[i]? = some cell) (htype : cell.type_ = some script) (hfound : Found script)
    (hdata : cell.data ≠ []) {v : Value} (hv : codec.decode cell.data = some v) :
    ∃ info ∈ infos, info.outPoint = outPointOf tx.hash i ∧ info.decoded = v := by
  classical
  refine ⟨⟨outPointOf tx.hash i, cell, v, blockOf t,
    decide (liveAt live0 txs txs.length (outPointOf tx.hash i) = some cell)⟩, ?_, rfl, rfl⟩
  exact (h.mem _).mpr ⟨hdata, t, i, ⟨tx, htx, hcell, rfl⟩, ⟨script, htype, hfound⟩, hv, rfl,
    decide_eq_true_iff⟩

end Search

/-! ## The latest -/

/-- `shown` are the `count` latest of `all`, newest first. -/
structure Latest (all shown : List CellInfo) (count : Nat) : Prop where
  sorted : shown.Pairwise fun a b => b.blockNumber ≤ a.blockNumber
  length : shown.length = min count all.length
  sub : shown.Subperm all
  latest : ∀ info ∈ all, info ∈ shown ∨ ∀ other ∈ shown, info.blockNumber ≤ other.blockNumber

/-- Sorting by block and cutting leaves the latest lines. -/
theorem latest_take (all : List CellInfo) (count : Nat) :
    Latest all ((all.mergeSort fun a b => decide (b.blockNumber ≤ a.blockNumber)).take count)
      count := by
  have hperm := List.mergeSort_perm all fun a b => decide (b.blockNumber ≤ a.blockNumber)
  have hsorted : (all.mergeSort fun a b => decide (b.blockNumber ≤ a.blockNumber)).Pairwise
      fun a b => b.blockNumber ≤ a.blockNumber := by
    refine (List.pairwise_mergeSort ?_ ?_ all).imp of_decide_eq_true
    · simp only [decide_eq_true_eq]
      omega
    · simp only [Bool.or_eq_true, decide_eq_true_eq]
      omega
  generalize (all.mergeSort fun a b => decide (b.blockNumber ≤ a.blockNumber)) = sorted
    at hperm hsorted
  refine ⟨hsorted.sublist (List.take_sublist _ _), by rw [List.length_take, hperm.length_eq],
    (List.take_sublist _ _).subperm.trans hperm.subperm, fun info hinfo => ?_⟩
  rw [← List.take_append_drop count sorted, List.pairwise_append] at hsorted
  rw [← hperm.mem_iff, ← List.take_append_drop count sorted, List.mem_append] at hinfo
  rcases hinfo with htake | hdrop
  · exact Or.inl htake
  · exact Or.inr fun other hother => hsorted.2.2 other hother info hdrop

/-! ## What decodes -/

section Decode

variable {lib : Library} {data : Bytes}

theorem ne_nil_of_verifyTable {name : String} {fields : List (Bytes → VerificationResult)}
    (h : verifyTable name fields false data = .ok ()) (hfields : fields ≠ []) : data ≠ [] := by
  rintro rfl
  obtain ⟨-, hlen, -⟩ := build_of_verifyTable h
  have hnil : (parts []).length = 0 := by decide
  rw [hnil] at hlen
  exact hfields (List.length_eq_zero_iff.mp hlen.symm)

/-- A proposal decodes when `ccc.Script` knows the hash type of its receiver. -/
theorem decode_proposal (hlib : lib.Documented) (h : ProposalReader.verify false data = .ok ()) :
    (∃ v, (proposalCodec lib.toCcc).decode data = some v) ↔
      ∃ receiver, ProposalReader.receiver data = .ok receiver ∧ HashTypeKnown receiver := by
  obtain ⟨hreceiver, hreceiverOk⟩ := Table.field_of_verify h 4 (by simp)
  have hreceiver : ProposalReader.receiver data = .ok (part data 4) := hreceiver
  obtain ⟨hround, hthrow⟩ := proposal_codec hlib.ccc h
  constructor
  · rintro ⟨v, hv⟩
    refine ⟨part data 4, hreceiver, ?_⟩
    by_contra hunknown
    rw [hthrow (script_throws hlib.ccc hreceiverOk hunknown)] at hv
    cases hv
  · rintro ⟨receiver, hreceiver', hknown⟩
    obtain rfl := Except.ok.inj (hreceiver.symm.trans hreceiver')
    obtain ⟨v, hv, -⟩ := hround (script_roundTrips hlib.ccc hreceiverOk hknown)
    exact ⟨v, hv⟩

/-- A decoded vote has the direction and the amount of the ballot. -/
structure ReadsBallot (decoded : Value) (direction : UInt8) (amount : Nat) : Prop where
  text : voteText decoded = if direction = 1 then "YES" else "NO"
  amount : property "amount" decoded = some (.num amount)

/-- A vote that verifies decodes to its direction and amount. -/
theorem decode_vote (hlib : lib.Documented) (hreads : lib.Reads)
    (h : VoteReader.verify false data = .ok ()) {direction : UInt8} {amount : Nat}
    (hballot : readBallot data = .ok (direction, amount)) :
    ∃ v, (voteCodec lib).decode data = some v ∧ ReadsBallot v direction amount := by
  obtain ⟨hbuild, hlen, hsize⟩ := build_of_verifyTable h
  have hparts : parts data = [part data 0, part data 1, part data 2] := parts_of_verifyTable h
  obtain ⟨⟨-, hvoteLen⟩, ⟨-, hamountLen⟩, -⟩ := VoteReader.fields_of_verify h
  obtain ⟨-, hdaoOk⟩ := Table.field_of_verify h 2 (by simp)
  obtain ⟨first, hfirst⟩ := List.length_eq_one_iff.mp hvoteLen
  obtain ⟨indices, hindices⟩ := hreads.uint16Vec_decode _ hdaoOk
  obtain ⟨direction', hdirection, hballot'⟩ := readBallot_of_parts h
  obtain ⟨rfl, rfl⟩ := Prod.mk.inj (Except.ok.inj (hballot.symm.trans hballot'))
  have hdirection : first = direction := by
    rw [hfirst] at hdirection
    exact Except.ok.inj hdirection
  subst hdirection
  have hfields : Codec.decodeFields [("vote", lib.uint8), ("amount", lib.uint64),
      ("daoIndex", lib.uint16Vec)] (parts data) =
        some [("vote", .num first.toNat), ("amount", .num (leNat (part data 1))),
          ("daoIndex", indices)] := by
    simp [hparts, Codec.decodeFields, hfirst, hreads.uint8_decode, hlib.uint64_decode _ hamountLen,
      hindices]
  refine ⟨.object [("vote", .num first.toNat), ("amount", .num (leNat (part data 1))),
    ("daoIndex", indices)], ?_, ?_, rfl⟩
  · rw [voteCodec, ← hbuild, hlib.ccc.table.decode_eq _ _ (by rw [hparts]; simp) hlen
      (by rwa [hbuild]), hbuild, hfields]
    rfl
  · by_cases hone : first = 1
    · subst hone
      rfl
    · have hne : first.toNat ≠ 1 := fun heq => hone (UInt8.toNat_inj.mp heq)
      rw [if_neg hone, voteText]
      split
      · rename_i heq
        exact absurd (Value.num.inj (Option.some.inj heq)) hne
      · rfl

end Decode

/-! ## Exact answers -/

section Answers

variable [Blake2b] {ext : ProposalTypeScript.External} {IsProposal IsVote : Bytes → Prop}
  {live0 : Live} {txs : List ChainTx} {t i : Nat} {cell : Cell} {script : Bytes}

/-- An output under the proposal script is a proposal. -/
theorem proposal_of_output (hhist : History ext IsProposal IsVote live0 txs)
    (hout : OutputAt txs t i cell) (htype : cell.type_ = some script)
    (hproposal : IsProposal script) :
    ProposalReader.verify false cell.data = .ok () ∧ ∃ args, scriptArgs script = .ok args := by
  obtain ⟨tx, headerOf, rtx, -, -, hresolve, hgroup, hrun, -⟩ := accepted_of_output hhist hout htype
  rw [← (resolves_of_resolve hresolve).tx_eq] at hgroup
  obtain ⟨-, args, hargs, -, hcreates | hsettles⟩ :=
    ProposalTypeScript.accepts_of_run (hrun hproposal)
  · obtain ⟨created, hone, hdata⟩ := hcreates.output
    rw [hone, List.mem_singleton] at hgroup
    exact ⟨hgroup ▸ hdata, args, hargs⟩
  · rw [hsettles.no_output] at hgroup
    cases hgroup

/-- An output under the vote script is a vote. -/
theorem vote_of_output (hhist : History ext IsProposal IsVote live0 txs)
    (hout : OutputAt txs t i cell) (htype : cell.type_ = some script) (hvote : IsVote script) :
    VoteReader.verify false cell.data = .ok () ∧
      ∃ direction amount, readBallot cell.data = .ok (direction, amount) := by
  obtain ⟨tx, headerOf, rtx, -, -, hresolve, hgroup, -, hrun⟩ := accepted_of_output hhist hout htype
  rw [← (resolves_of_resolve hresolve).tx_eq] at hgroup
  rcases verifyVote_of_run (hrun hvote) with hnone | ⟨voteOutput, args, hone, -, hok⟩
  · rw [hnone] at hgroup
    cases hgroup
  · rw [hone, List.mem_singleton] at hgroup
    subst hgroup
    have hcasts := castsVote_of_verifyVote hok
    obtain ⟨direction, amount, hballot, -⟩ := hcasts.ballot
    exact ⟨hcasts.vote_ok, direction, amount, hballot⟩

section Lists

variable (lib : Library) (config : NetworkConfig) (live0 : Live) (txs : List ChainTx)
  (blockOf : Nat → Nat)

/-- Exactly the proposals of the history whose receiver `ccc.Script` can read. -/
structure ListsProposals (infos : List CellInfo) : Prop where
  lists : Lists live0 txs blockOf (proposalCodec lib.toCcc) config.proposalTypeScript.Refers infos
  complete : ∀ (t i : Nat) (tx : ChainTx) (cell : Cell) (script : Bytes), txs[t]? = some tx →
    tx.outputs[i]? = some cell → cell.type_ = some script →
      config.proposalTypeScript.Refers script →
      ((∃ info ∈ infos, info.outPoint = outPointOf tx.hash i) ↔
        ∃ receiver, ProposalReader.receiver cell.data = .ok receiver ∧ HashTypeKnown receiver)

/-- The vote script of a proposal. -/
def VotesOn (proposalScript : Bytes) (script : Bytes) : Prop :=
  config.voteTypeScript.Refers script ∧ scriptArgs script = .ok (blake160 proposalScript).val

/-- Exactly the votes of the history on a proposal, with their ballots. -/
structure ListsVotes (proposalScript : Bytes) (infos : List CellInfo) : Prop where
  lists : Lists live0 txs blockOf (voteCodec lib) (VotesOn config proposalScript) infos
  complete : ∀ (t i : Nat) (tx : ChainTx) (cell : Cell) (script : Bytes), txs[t]? = some tx →
    tx.outputs[i]? = some cell → cell.type_ = some script → VotesOn config proposalScript script →
      ∃ info ∈ infos, info.outPoint = outPointOf tx.hash i ∧
        ∃ direction amount, readBallot cell.data = .ok (direction, amount) ∧
          ReadsBallot info.decoded direction amount

end Lists

variable {lib : Library} {config : NetworkConfig} {client : QueryClient} {blockOf : Nat → Nat}

/-- The lines found under the proposal script are the proposals. -/
theorem listsProposals_of_lists (hlib : lib.Documented)
    (hhist : History ext IsProposal IsVote live0 txs) (hdistinct : DistinctHashes live0 txs)
    (hproposal : ∀ script, config.proposalTypeScript.Refers script → IsProposal script)
    {infos : List CellInfo} (h : Lists live0 txs blockOf (proposalCodec lib.toCcc)
      (keyOf config.proposalTypeScript []).Finds infos) :
    ListsProposals lib config live0 txs blockOf infos := by
  have hlists : Lists live0 txs blockOf (proposalCodec lib.toCcc) config.proposalTypeScript.Refers
      infos := h.congr ?_
  · refine ⟨hlists, fun t i tx cell script htx hcell htype hrefers => ?_⟩
    have hdata := (proposal_of_output hhist ⟨tx, htx, hcell⟩ htype (hproposal script hrefers)).1
    rw [← decode_proposal hlib hdata]
    constructor
    · rintro ⟨info, hinfo, hop⟩
      obtain ⟨-, t', i', ⟨tx', htx', hcell', hop'⟩, -, hdecode, -⟩ := (hlists.mem info).mp hinfo
      obtain ⟨-, rfl⟩ := hdistinct.output_unique htx hcell htx' hcell' (hop.symm.trans hop')
      exact ⟨_, hdecode⟩
    · rintro ⟨v, hv⟩
      obtain ⟨info, hinfo, hop, -⟩ := hlists.of_decode htx hcell htype hrefers
        (ne_nil_of_verifyTable hdata (by simp)) hv
      exact ⟨info, hinfo, hop⟩
  · intro t i cell script hout htype
    refine ⟨fun hfinds => hfinds.1, fun hrefers => ⟨hrefers, ?_⟩⟩
    obtain ⟨-, args, hargs⟩ := proposal_of_output hhist hout htype (hproposal script hrefers)
    exact ⟨args, hargs, List.nil_prefix⟩

/-- The lines found under the vote script of a proposal are its votes. -/
theorem listsVotes_of_lists (hlib : lib.Documented) (hreads : lib.Reads)
    (hhist : History ext IsProposal IsVote live0 txs)
    (hvote : ∀ script, config.voteTypeScript.Refers script → IsVote script) {infos : List CellInfo}
    (h : Lists live0 txs blockOf (voteCodec lib)
      (keyOf config.voteTypeScript (blake160 script).val).Finds infos) :
    ListsVotes lib config live0 txs blockOf script infos := by
  have hne : (blake160 script).val ≠ [] :=
    List.ne_nil_of_length_pos (by rw [(blake160 script).length_val]; omega)
  have hlists : Lists live0 txs blockOf (voteCodec lib) (VotesOn config script) infos := h.congr ?_
  · refine ⟨hlists, fun t i tx cell voteScript htx hcell htype hon => ?_⟩
    obtain ⟨hdata, direction, amount, hballot⟩ :=
      vote_of_output hhist ⟨tx, htx, hcell⟩ htype (hvote voteScript hon.1)
    obtain ⟨v, hv, hshows⟩ := decode_vote hlib hreads hdata hballot
    obtain ⟨info, hinfo, hop, rfl⟩ := hlists.of_decode htx hcell htype hon
      (ne_nil_of_verifyTable hdata (by simp)) hv
    exact ⟨info, hinfo, hop, direction, amount, hballot, hshows⟩
  · intro t i cell voteScript _ _
    simp only [SearchKey.Finds, keyOf, if_neg hne, VotesOn, ScriptInfo.Refers]
    constructor
    · rintro ⟨hrefers, args, hargs, rfl⟩
      exact ⟨hrefers, hargs⟩
    · rintro ⟨hrefers, hargs⟩
      exact ⟨hrefers, _, hargs, rfl⟩

/-- The votes of every proposal, by induction on the proposals. -/
theorem votesPerProposal_eq (hlib : lib.Documented) (hreads : lib.Reads)
    (hhist : History ext IsProposal IsVote live0 txs) (hdistinct : DistinctHashes live0 txs)
    (hclient : client.Documented live0 txs blockOf)
    (hvote : ∀ script, config.voteTypeScript.Refers script → IsVote script)
    (proposals : List CellInfo)
    (htypes : ∀ info ∈ proposals, ∃ script, info.cell.type_ = some script) :
    ∃ report, report.map Prod.fst = proposals ∧
      (∀ p ∈ report, ∃ script, p.1.cell.type_ = some script ∧
        ListsVotes lib config live0 txs blockOf script p.2) ∧
      ∃ bound, ∀ fuel ≥ bound, ∀ cache, TxCache.Agrees client cache →
        votesPerProposal lib client config fuel proposals cache = some report := by
  induction proposals with
  | nil => exact ⟨[], rfl, fun p h => (nomatch h), 0, fun _ _ _ _ => rfl⟩
  | cons proposal proposals ih =>
      obtain ⟨script, htype⟩ := htypes proposal List.mem_cons_self
      obtain ⟨report, hmap, hreport, bound, hrun⟩ :=
        ih fun info h => htypes info (List.mem_cons_of_mem _ h)
      obtain ⟨bound', votes, hlists, hcollect⟩ := collect_eq hdistinct
        (fun _ _ => hhist.live_of_spent) hclient (voteCodec lib) config.voteTypeScript
        (blake160 script).val
      refine ⟨(proposal, votes) :: report, by rw [List.map_cons, hmap], ?_, max bound bound', ?_⟩
      · rintro p (_ | ⟨_, h⟩)
        · exact ⟨script, htype, listsVotes_of_lists hlib hreads hhist hvote hlists⟩
        · exact hreport p h
      · intro fuel hfuel cache hcache
        obtain ⟨cache', hvotes, hagrees⟩ := hcollect fuel ((le_max_right _ _).trans hfuel)
          cache hcache
        simp only [votesPerProposal, htype, collectVotesForProposal, hvotes, Option.bind_eq_bind,
          Option.bind_some, hrun fuel ((le_max_left _ _).trans hfuel) cache' hagrees]

/-- **The list is exact.**  On a node that has indexed a history, `query` returns
the `count` latest of all proposals whose receiver can be read, each with all
votes that were ever cast on it, each once; every line tells the block, whether
the cell is live at the tip, and of a vote its direction and amount. -/
theorem query_exact (hlib : lib.Documented) (hreads : lib.Reads)
    (hhist : History ext IsProposal IsVote live0 txs) (hdistinct : DistinctHashes live0 txs)
    (hclient : client.Documented live0 txs blockOf)
    (hproposal : ∀ script, config.proposalTypeScript.Refers script → IsProposal script)
    (hvote : ∀ script, config.voteTypeScript.Refers script → IsVote script) (count : Nat) :
    ∃ all report, ListsProposals lib config live0 txs blockOf all ∧
      Latest all (report.map Prod.fst) count ∧
      (∀ p ∈ report, ∃ script, p.1.cell.type_ = some script ∧
        ListsVotes lib config live0 txs blockOf script p.2) ∧
      ∃ bound, ∀ fuel ≥ bound, query lib client config fuel count = some report := by
  obtain ⟨bound, all, hlists, hcollect⟩ := collect_eq hdistinct (fun _ _ => hhist.live_of_spent)
    hclient (proposalCodec lib.toCcc) config.proposalTypeScript []
  have hlatest := latest_take all count
  obtain ⟨report, hmap, hreport, bound', hrun⟩ := votesPerProposal_eq hlib hreads hhist hdistinct
    hclient hvote _ (fun info hinfo => by
      obtain ⟨-, t, i, hrecorded⟩ := (hlists.mem info).mp (hlatest.sub.subset hinfo)
      obtain ⟨script, htype, -⟩ := hrecorded.found
      exact ⟨script, htype⟩)
  refine ⟨all, report, listsProposals_of_lists hlib hhist hdistinct hproposal hlists,
    hmap ▸ hlatest, hreport, max bound bound', fun fuel hfuel => ?_⟩
  have hnil : TxCache.Agrees client [] := fun _ _ h => nomatch h
  obtain ⟨cache, hproposals, hagrees⟩ := hcollect fuel ((le_max_left _ _).trans hfuel) [] hnil
  simp only [query, collectProposals, hproposals, Option.bind_eq_bind, Option.bind_some]
  exact hrun fuel ((le_max_right _ _).trans hfuel) cache hagrees

end Answers

/-! ## A node that has indexed a history -/

section Node

variable (live0 : Live) (txs : List ChainTx) (blockOf : Nat → Nat) (key : SearchKey)

/-- The type script of the cell is found. -/
def FoundAt (cell : Option Cell) : Prop :=
  ∃ script, (cell.bind Cell.type_) = some script ∧ key.Finds script

instance (cell : Option Cell) : Decidable (FoundAt key cell) :=
  match h : cell.bind Cell.type_ with
  | some script => decidable_of_iff (key.Finds script)
      ⟨fun hf => ⟨script, h, hf⟩, fun ⟨_, hs, hf⟩ => Option.some.inj (h.symm.trans hs) ▸ hf⟩
  | none => isFalse fun ⟨_, hs, _⟩ => nomatch h.symm.trans hs

/-- The rows of transaction `t`. -/
def txRows (tx : ChainTx) (t : Nat) : List RpcTxWithCell :=
  ((tx.inputs.zipIdx.filter fun p => FoundAt key (liveAt live0 txs t p.1.previousOutput)).map
    fun p => ⟨tx.hash, blockOf t, .input, p.2⟩) ++
  ((tx.outputs.zipIdx.filter fun p => FoundAt key (some p.1)).map
    fun p => ⟨tx.hash, blockOf t, .output, p.2⟩)

def rowsOf : List RpcTxWithCell :=
  txs.zipIdx.flatMap fun p => txRows live0 txs blockOf key p.1 p.2

/-- A cursor is as long as the rows before it are many. -/
def nodeOf : QueryClient where
  getTransactions key size cursor :=
    let start := Paging.startOf List.length cursor
    some (((rowsOf live0 txs blockOf key).drop start).take size, List.replicate (start + size) 'c')
  getTransaction hash := (txs.find? fun tx => tx.hash = hash).map fullTx

variable {live0 txs blockOf key}

/-- The rows of a transaction are those of its inputs and outputs that the key
finds. -/
theorem mem_txRows {tx : ChainTx} {t : Nat} {entry : RpcTxWithCell} :
    entry ∈ txRows live0 txs blockOf key tx t ↔
      (∃ (i : Nat) (input : CellInput), tx.inputs[i]? = some input ∧
        FoundAt key (liveAt live0 txs t input.previousOutput) ∧
          entry = ⟨tx.hash, blockOf t, .input, i⟩) ∨
      ∃ (i : Nat) (cell : Cell), tx.outputs[i]? = some cell ∧ FoundAt key (some cell) ∧
        entry = ⟨tx.hash, blockOf t, .output, i⟩ := by
  simp only [txRows, List.mem_append, List.mem_map, List.mem_filter, decide_eq_true_iff,
    Prod.exists, List.mk_mem_zipIdx_iff_getElem?]
  grind

/-- The rows of a history are its index entries. -/
theorem mem_rowsOf {entry : RpcTxWithCell} :
    entry ∈ rowsOf live0 txs blockOf key ↔ Indexed live0 txs blockOf key entry := by
  simp only [rowsOf, List.mem_flatMap, Prod.exists, List.mk_mem_zipIdx_iff_getElem?]
  constructor
  · rintro ⟨tx, t, htx, hentry⟩
    rcases mem_txRows.mp hentry with ⟨i, input, hinput, ⟨script, htype, hfinds⟩, rfl⟩ |
      ⟨i, cell, hcell, ⟨script, htype, hfinds⟩, rfl⟩
    · obtain ⟨cell, hlive, htype⟩ := Option.bind_eq_some_iff.mp htype
      exact .input htx hinput hlive htype hfinds
    · exact .output htx hcell htype hfinds
  · rintro (⟨htx, hinput, hlive, htype, hfinds⟩ | ⟨htx, hcell, htype, hfinds⟩)
    · exact ⟨_, _, htx, mem_txRows.mpr (Or.inl ⟨_, _, hinput,
        ⟨_, Option.bind_eq_some_iff.mpr ⟨_, hlive, htype⟩, hfinds⟩, rfl⟩)⟩
    · exact ⟨_, _, htx, mem_txRows.mpr (Or.inr ⟨_, _, hcell, ⟨_, htype, hfinds⟩, rfl⟩)⟩

/-- No row comes twice. -/
theorem nodup_rowsOf (hdistinct : DistinctHashes live0 txs) :
    (rowsOf live0 txs blockOf key).Nodup := by
  have hzip : ∀ {α : Type} (l : List α), (l.zipIdx.map Prod.snd).Nodup := fun l => by
    rw [List.zipIdx_map_snd]
    exact List.nodup_range'
  rw [rowsOf, List.nodup_flatMap]
  constructor
  · rintro ⟨tx, t⟩ -
    refine List.nodup_append.mpr ⟨?_, ?_, ?_⟩
    · refine List.Nodup.of_map RpcTxWithCell.ioIndex ?_
      rw [List.map_map]
      exact (hzip tx.inputs).sublist (List.filter_sublist.map _)
    · refine List.Nodup.of_map RpcTxWithCell.ioIndex ?_
      rw [List.map_map]
      exact (hzip tx.outputs).sublist (List.filter_sublist.map _)
    · intro entry hentry entry' hentry' heq
      obtain ⟨p, -, rfl⟩ := List.mem_map.mp hentry
      obtain ⟨p', -, rfl⟩ := List.mem_map.mp hentry'
      cases heq
  · have hpairs : txs.zipIdx.Pairwise fun p p' => p.2 ≠ p'.2 :=
      List.pairwise_map.mp (hzip txs)
    refine hpairs.imp_of_mem ?_
    intro p p' hp hp' hne entry hentry hentry'
    have hhash : ∀ {tx t}, entry ∈ txRows live0 txs blockOf key tx t → entry.txHash = tx.hash := by
      intro tx t h
      rcases mem_txRows.mp h with ⟨i, input, -, -, rfl⟩ | ⟨i, cell, -, -, rfl⟩ <;> rfl
    exact hne (hdistinct.hash_inj _ _ _ _ (List.mk_mem_zipIdx_iff_getElem?.mp hp)
      (List.mk_mem_zipIdx_iff_getElem?.mp hp') ((hhash hentry).symm.trans (hhash hentry')))

/-- The sample node answers as documented. -/
theorem nodeOf_documented (hdistinct : DistinctHashes live0 txs) :
    (nodeOf live0 txs blockOf).Documented live0 txs blockOf where
  pages key := by
    refine ⟨rowsOf live0 txs blockOf key, List.length, fun cursor _ => ⟨_, rfl, fun _ => ?_⟩,
      nodup_rowsOf hdistinct, fun entry => mem_rowsOf⟩
    exact List.length_replicate
  transaction tx htx := by
    have hfound : (txs.find? fun other => other.hash = tx.hash) ≠ none := fun hnone =>
      List.find?_eq_none.mp hnone tx htx (by simp)
    obtain ⟨other, hother⟩ := Option.ne_none_iff_exists'.mp hfound
    obtain ⟨t, ht⟩ := List.getElem?_of_mem htx
    obtain ⟨t', ht'⟩ := List.getElem?_of_mem (List.mem_of_find?_eq_some hother)
    have hhash : other.hash = tx.hash := by simpa using List.find?_some hother
    obtain rfl := hdistinct.hash_inj _ _ _ _ ht' ht hhash
    obtain rfl := Option.some.inj (ht.symm.trans ht')
    simp [nodeOf, hother]

end Node

/-! ## A sample query -/

section Sample

open CkbVote.Sample

local instance (priority := 4000) queryHash : Blake2b := parkBlake2b

/-- The sample codecs read numbers and vectors. -/
theorem molLibrary_reads : molLibrary.Reads where
  uint8_decode n := by simp [molLibrary, moleculeCcc, Codec.number, leNat]
  uint16Vec_decode s h := ⟨_, if_pos (verifyFixVec_eq_ok.mp h)⟩

/-- The creation is in block 0, the vote and the recycling are in block 1. -/
def parkBlockOf (t : Nat) : Nat := min t 1

theorem query_exact_park :
    ∃ all report,
      ListsProposals molLibrary sampleConfig (liveOf parkStart) parkRun parkBlockOf all ∧
      Latest all (report.map Prod.fst) 3 ∧
      (∀ p ∈ report, ∃ script, p.1.cell.type_ = some script ∧
        ListsVotes molLibrary sampleConfig (liveOf parkStart) parkRun parkBlockOf script p.2) ∧
      ∃ bound, ∀ fuel ≥ bound,
        query molLibrary (nodeOf (liveOf parkStart) parkRun parkBlockOf) sampleConfig fuel 3 =
          some report :=
  have hhist := history_of_run molLibrary_documented sampleConfig_deployed typeIdOnly_checks
    parkRun_distinct parkRun_run
  query_exact molLibrary_documented molLibrary_reads hhist parkRun_distinct
    (nodeOf_documented parkRun_distinct) (fun _ h => h.1) (fun _ h => h.1) 3

end Sample

end Sdk

end CkbVote
