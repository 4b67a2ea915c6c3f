import CkbVote.Completeness
import CkbVote.WorkPool

/-!
# Dumping blocks

`dump-blocks` asks a node for a run of blocks and writes them as one `BlockVec`,
which the host reads.  Several workers share the index `nextIdx`; JavaScript runs
a worker to its next `await`, so a worker takes its index and puts out its
request in one go, and the answers come in any order.

`Turn` is the command from one answer to the next, with the requests that it puts
out.  `dumpBlocks_any_order` says that the order of the answers does not matter:
no run goes on for ever, none gets stuck before the command has ended, and at its
end the blocks are written in order, each requested once, or the command has died
because a request has failed.  Behind a node that serves the main chain, the file
is a segment in which the host finds the proposal (`dumped_proposal_found`).
-/

namespace CkbVote

open Octets Molecule WorkPool

namespace Sdk

/-! ## The command -/

/-- The requests of the command; `none` is a request that fails. -/
structure Client where
  /-- The `block_number` of `get_transaction`, if the result has one. -/
  getTransaction : (txHash : List Char) → Option (Option Nat)
  /-- `get_block_by_number` with verbosity `0x0`. -/
  getBlockByNumber : Nat → Option (List Char)

/-- What the command needs of `@ckb-ccc`.  The items that `encode` gets are those
of a JavaScript array, which may have holes. -/
structure BlockLibrary where
  bytesFrom : List Char → Option Bytes
  /-- `mol.dynItemVec(RawField).encode`. -/
  encodeBlockVec : List (Option Bytes) → Option Bytes

structure BlockLibrary.Documented (lib : BlockLibrary) : Prop where
  bytesFrom_hex : ∀ b, lib.bytesFrom ('0' :: 'x' :: ProposalTypeScript.hexEncode b) = some b
  encode_items : ∀ blocks : List Bytes, (BlockVec.newBuilder blocks).length < 2 ^ 32 →
    lib.encodeBlockVec (blocks.map some) = some (BlockVec.newBuilder blocks)

section Command

variable (lib : BlockLibrary) (client : Client)

def findStartBlockNumber (txHash : List Char) : Option Nat := do
  let result ← client.getTransaction txHash
  result

def fetchBlockBytes (blockNumber : Nat) : Option Bytes := do
  let result ← client.getBlockByNumber blockNumber
  if result.take 2 ≠ ['0', 'x'] then none
  else lib.bytesFrom result

inductive Exit
  | written (file : Bytes)
  | died

/-- The workers when each of them has put out its first request. -/
def launch (count concurrency : Nat) : Pool (Fin concurrency) Bytes :=
  (List.finRange concurrency).foldl (Pool.take count) (Pool.start _ _)

/-- The first requests. -/
def firstAsks (count concurrency : Nat) : List Event :=
  (List.range concurrency).flatMap (Pool.asks count)

/-- `blocks`, written to the file. -/
def writeBlocks {concurrency : Nat} (count : Nat) (pool : Pool (Fin concurrency) Bytes) : Exit :=
  match lib.encodeBlockVec ((List.range count).map pool.slot) with
  | some file => .written file
  | none => .died

/-- What the command is doing. -/
inductive Command (concurrency : Nat)
  | finding
  | fetching (startNumber : Nat) (pool : Pool (Fin concurrency) Bytes)
  | ended (exit : Exit)

/-- The command from one answer to the next.  The events are the blocks that it
asks for and is answered; the first request that fails rejects `Promise.all`, and
the command dies. -/
inductive Turn (txHash : List Char) (count : Nat) {concurrency : Nat} :
    Command concurrency → List Event → Command concurrency → Prop
  | notFound (h : findStartBlockNumber client txHash = none) :
      Turn txHash count .finding [] (.ended .died)
  | found (startNumber : Nat) (h : findStartBlockNumber client txHash = some startNumber) :
      Turn txHash count .finding (firstAsks count concurrency)
        (.fetching startNumber (launch count concurrency))
  | fetched (startNumber : Nat) (pool : Pool (Fin concurrency) Bytes) (w : Fin concurrency)
      (idx : Nat) (block : Bytes) (hwaits : pool.worker w = .waiting idx)
      (hfetch : fetchBlockBytes lib client (startNumber + idx) = some block) :
      Turn txHash count (.fetching startNumber pool) ([.answer idx] ++ Pool.asks count pool.next)
        (.fetching startNumber ((pool.answer w idx block).take count w))
  | rejected (startNumber : Nat) (pool : Pool (Fin concurrency) Bytes) (w : Fin concurrency)
      (idx : Nat) (hwaits : pool.worker w = .waiting idx)
      (hfetch : fetchBlockBytes lib client (startNumber + idx) = none) :
      Turn txHash count (.fetching startNumber pool) [] (.ended .died)
  | settled (startNumber : Nat) (pool : Pool (Fin concurrency) Bytes)
      (hstop : ∀ w, pool.worker w = .stopped) :
      Turn txHash count (.fetching startNumber pool) [] (.ended (writeBlocks lib count pool))

/-- The runs of `dump-blocks`, to whatever it is doing after `n` turns. -/
abbrev DumpRun (txHash : List Char) (count concurrency : Nat) :
    Nat → List Event → Command (min concurrency count) → Prop :=
  Steps (Turn lib client txHash count) .finding

/-- The runs that have ended. -/
def DumpBlocks (txHash : List Char) (count concurrency : Nat) (events : List Event)
    (exit : Exit) : Prop :=
  ∃ n, DumpRun lib client txHash count concurrency n events (.ended exit)

end Command

/-! ## Any order of answers -/

section Order

variable {lib : BlockLibrary} {client : Client} {txHash : List Char}
  {startNumber count concurrency n turns : Nat} {pool : Pool (Fin n) Bytes} {events : List Event}
  {command : Command n} {exit : Exit}

/-- The answers of the node. -/
def Answers (lib : BlockLibrary) (client : Client) (startNumber i : Nat) (block : Bytes) : Prop :=
  fetchBlockBytes lib client (startNumber + i) = some block

/-- No worker stands at the top of its loop. -/
def Parked (pool : Pool (Fin n) Bytes) : Prop := ∀ w, pool.worker w ≠ .ready

/-- Every worker has put out a request or has stopped. -/
theorem parked_launch (count n : Nat) : Parked (launch count n) := fun w =>
  Pool.not_ready_takes _ (Or.inl (List.mem_finRange w))

/-- A worker that is answered goes on to its next request. -/
theorem parked_turn (h : Parked pool) (w : Fin n) (idx : Nat) (block : Bytes) :
    Parked ((pool.answer w idx block).take count w) := by
  intro w'
  rw [Pool.worker_take, Pool.worker_answer]
  split_ifs with hw
  · simp
  · simp
  · exact h w'

/-- The launch is a turn of each worker. -/
theorem steps_launch (answers : Nat → Bytes → Prop) (count n : Nat) :
    Steps (Pool.Step count answers) (Pool.start (Fin n) Bytes) n (firstAsks count n)
      (launch count n) := by
  have h : Steps (Pool.Step count answers) (Pool.start (Fin n) Bytes) (List.finRange n).length
      ((List.range (List.finRange n).length).flatMap fun k => Pool.asks count (0 + k))
      (launch count n) :=
    Pool.steps_takes (List.finRange n) (List.nodup_finRange n) fun _ _ => rfl
  simpa only [List.length_finRange, Nat.zero_add, firstAsks] using h

/-- An answer and the next request are two turns of the worker. -/
theorem steps_turn {w : Fin n} {idx : Nat} {block : Bytes} (hwaits : pool.worker w = .waiting idx)
    (hfetch : fetchBlockBytes lib client (startNumber + idx) = some block) :
    Steps (Pool.Step count (Answers lib client startNumber)) pool 2
      ([.answer idx] ++ Pool.asks count pool.next) ((pool.answer w idx block).take count w) := by
  refine (Steps.single (Pool.Step.answer w idx block hwaits hfetch)).trans
    (Steps.single (Pool.Step.take w ?_))
  rw [Pool.worker_answer, if_pos rfl]

/-- The turns that a command has left, at most. -/
def Command.rank (count : Nat) : Command n → Nat
  | .finding => n + 2 * count + 2
  | .fetching _ pool => pool.rank count + 1
  | .ended _ => 0

/-- **Every turn** of the command lowers its rank. -/
theorem Turn.rank_lt {command' : Command n} {fs : List Event}
    (h : Turn lib client txHash count command fs command') :
    command'.rank count < command.rank count := by
  cases h with
  | notFound h => exact Nat.succ_pos _
  | found startNumber h =>
      have hlaunch := Pool.rank_steps (steps_launch (Answers lib client startNumber) count n)
      have hstart : (Pool.start (Fin n) Bytes).rank count = n + 2 * count := by
        simp [Pool.rank, Pool.start]
      simp only [Command.rank]
      omega
  | fetched startNumber pool w idx block hwaits hfetch =>
      have hturn : ((pool.answer w idx block).take count w).rank count + 2 ≤ pool.rank count :=
        Pool.rank_steps (steps_turn hwaits hfetch)
      simp only [Command.rank]
      omega
  | rejected startNumber pool w idx hwaits hfetch => exact Nat.succ_pos _
  | settled startNumber pool hstop => exact Nat.succ_pos _

/-- What a run has come to: the workers have taken the turns that its events tell,
and the command has ended for a reason. -/
inductive Reached (lib : BlockLibrary) (client : Client) (txHash : List Char) (count : Nat)
    {n : Nat} : List Event → Command n → Prop
  | finding : Reached lib client txHash count [] .finding
  | notFound (h : findStartBlockNumber client txHash = none) :
      Reached lib client txHash count [] (.ended .died)
  | fetching {startNumber m : Nat} {events : List Event} {pool : Pool (Fin n) Bytes}
      (h : findStartBlockNumber client txHash = some startNumber)
      (hsteps : Steps (Pool.Step count (Answers lib client startNumber)) (Pool.start _ _) m events
        pool) (hparked : Parked pool) :
      Reached lib client txHash count events (.fetching startNumber pool)
  | rejected {startNumber m i : Nat} {events : List Event} {pool : Pool (Fin n) Bytes}
      (h : findStartBlockNumber client txHash = some startNumber)
      (hsteps : Steps (Pool.Step count (Answers lib client startNumber)) (Pool.start _ _) m events
        pool) (hi : i < count) (hfetch : fetchBlockBytes lib client (startNumber + i) = none) :
      Reached lib client txHash count events (.ended .died)
  | settled {startNumber m : Nat} {events : List Event} {pool : Pool (Fin n) Bytes}
      (h : findStartBlockNumber client txHash = some startNumber)
      (hsteps : Steps (Pool.Step count (Answers lib client startNumber)) (Pool.start _ _) m events
        pool) (hstop : ∀ w, pool.worker w = .stopped) :
      Reached lib client txHash count events (.ended (writeBlocks lib count pool))

/-- **One turn** of the command is turns of its workers, or an end. -/
theorem Reached.turn {command' : Command n} {fs : List Event}
    (h : Reached lib client txHash count events command)
    (hturn : Turn lib client txHash count command fs command') :
    Reached lib client txHash count (events ++ fs) command' := by
  cases hturn with
  | notFound hnone =>
      cases h
      exact .notFound hnone
  | found startNumber hstart =>
      cases h
      exact .fetching hstart (steps_launch _ count n) (parked_launch count n)
  | fetched startNumber pool w idx block hwaits hfetch =>
      cases h with
      | fetching hstart hsteps hparked =>
          exact .fetching hstart (hsteps.trans (steps_turn hwaits hfetch))
            (parked_turn hparked w idx block)
  | rejected startNumber pool w idx hwaits hfetch =>
      cases h with
      | fetching hstart hsteps hparked =>
          have hlt := ((Pool.inv_start.steps hsteps).waiting_lt w idx hwaits).2
          rw [List.append_nil]
          exact .rejected hstart hsteps hlt hfetch
  | settled startNumber pool hstop =>
      cases h with
      | fetching hstart hsteps hparked =>
          rw [List.append_nil]
          exact .settled hstart hsteps hstop

/-- **A whole run.** -/
theorem reached_of_run (h : Steps (Turn lib client txHash count) .finding turns events command) :
    Reached lib client txHash count events command :=
  h.invariant (P := fun events command => Reached lib client txHash count events command)
    (fun _ _ _ _ hreached => hreached.turn) .finding

/-- **No run gets stuck**: a command that has not ended has a turn. -/
theorem Reached.next (h : Reached lib client txHash count events command) :
    (∃ exit, command = .ended exit) ∨
      ∃ fs command', Turn lib client txHash count command fs command' := by
  cases h with
  | finding =>
      right
      cases hstart : findStartBlockNumber client txHash with
      | none => exact ⟨_, _, .notFound hstart⟩
      | some startNumber => exact ⟨_, _, .found startNumber hstart⟩
  | notFound => exact Or.inl ⟨_, rfl⟩
  | rejected => exact Or.inl ⟨_, rfl⟩
  | settled => exact Or.inl ⟨_, rfl⟩
  | @fetching startNumber _ _ pool _ _ hparked =>
      right
      by_cases hstop : ∀ w, pool.worker w = .stopped
      · exact ⟨_, _, .settled startNumber pool hstop⟩
      · -- a worker that has not stopped waits, and its request is answered or fails
        obtain ⟨w, hw⟩ := not_forall.mp hstop
        obtain ⟨idx, hwaits⟩ : ∃ idx, pool.worker w = .waiting idx := by
          cases hworker : pool.worker w with
          | ready => exact absurd hworker (hparked w)
          | waiting idx => exact ⟨idx, rfl⟩
          | stopped => exact absurd hworker hw
        cases hfetch : fetchBlockBytes lib client (startNumber + idx) with
        | none => exact ⟨_, _, .rejected startNumber pool w idx hwaits hfetch⟩
        | some block => exact ⟨_, _, .fetched startNumber pool w idx block hwaits hfetch⟩

/-- **Every run can be completed.** -/
theorem Reached.completes (h : Reached lib client txHash count events command) :
    ∃ m more exit, Steps (Turn lib client txHash count) command m more (.ended exit) := by
  obtain ⟨m, more, last, hrest, exit, rfl⟩ : ∃ m more last,
      Steps (Turn lib client txHash count) command m more last ∧ ∃ exit, last = .ended exit := by
    refine Steps.exists_end (r := Command.rank count)
      (P := fun command => ∃ events, Reached lib client txHash count events command)
      (fun _ _ _ => Turn.rank_lt) (fun command hreached => ?_) ⟨events, h⟩
    obtain ⟨events, hreached⟩ := hreached
    refine hreached.next.imp_right ?_
    rintro ⟨fs, command', hturn⟩
    exact ⟨fs, command', hturn, _, hreached.turn hturn⟩
  exact ⟨m, more, exit, hrest⟩

/-- Mapping succeeds with the values that each item has. -/
theorem mapM_eq_some_map {α β : Type} {f : α → Option β} {g : α → β} {l : List α}
    (h : ∀ a ∈ l, f a = some (g a)) : l.mapM f = some (l.map g) := by
  induction l with
  | nil => rfl
  | cons a l ih =>
      rw [List.mapM_cons, h a List.mem_cons_self, ih fun b hb => h b (List.mem_cons_of_mem a hb)]
      rfl

/-- Mapping fails when one item does. -/
theorem mapM_eq_none {α β : Type} {f : α → Option β} {l : List α} {a : α} (ha : a ∈ l)
    (h : f a = none) : l.mapM f = none := by
  induction l with
  | nil => cases ha
  | cons b l ih =>
      rw [List.mapM_cons]
      rcases List.mem_cons.mp ha with rfl | hmem
      · rw [h]
        rfl
      · rw [ih hmem]
        cases f b <;> rfl

/-- The blocks that the node serves, in order. -/
def servedBlocks (lib : BlockLibrary) (client : Client) (startNumber count : Nat) :
    Option (List Bytes) :=
  (List.range count).mapM fun i => fetchBlockBytes lib client (startNumber + i)

/-- A pool whose workers have all stopped holds what the node serves. -/
theorem slots_of_stopped [Nonempty (Fin n)]
    (hinv : Pool.Inv count (Answers lib client startNumber) pool)
    (hstop : ∀ w, pool.worker w = .stopped) :
    ∃ blocks, servedBlocks lib client startNumber count = some blocks ∧
      (List.range count).map pool.slot = blocks.map some := by
  have hslot : ∀ i ∈ List.range count, pool.slot i = some ((pool.slot i).getD []) ∧
      fetchBlockBytes lib client (startNumber + i) = some ((pool.slot i).getD []) := by
    intro i hi
    obtain ⟨a, ha, hfetch⟩ := hinv.filled hstop (List.mem_range.mp hi)
    rw [ha]
    exact ⟨rfl, hfetch⟩
  refine ⟨(List.range count).map fun i => (pool.slot i).getD [],
    mapM_eq_some_map fun i hi => (hslot i hi).2, ?_⟩
  rw [List.map_map]
  exact List.map_congr_left fun i hi => (hslot i hi).1

/-- The blocks that the command asks for, when the node knows the transaction and
serves every one of them. -/
def dumpedBlocks (lib : BlockLibrary) (client : Client) (txHash : List Char) (count : Nat) :
    Option (List Bytes) := do
  let startNumber ← findStartBlockNumber client txHash
  servedBlocks lib client startNumber count

/-- The node knows the block of the transaction. -/
theorem dumpedBlocks_eq (h : client.getTransaction txHash = some (some startNumber)) :
    dumpedBlocks lib client txHash count = servedBlocks lib client startNumber count := by
  rw [dumpedBlocks, findStartBlockNumber, h]
  rfl

/-- What a run has asked for and been answered: the first blocks, each requested
once, and no request answered twice. -/
structure Orderly (count : Nat) (events : List Event) : Prop where
  asked_range : ∃ k ≤ count, asked events = List.range k
  answered_once : (answered events).Nodup
  answered_asked : answered events ⊆ asked events

/-- Turns of the workers are orderly. -/
theorem orderly_of_steps {answers : Nat → Bytes → Prop} {m : Nat}
    (h : Steps (Pool.Step count answers) (Pool.start (Fin n) Bytes) m events pool) :
    Orderly count events := by
  have hasked := Pool.asked_range h
  rw [show (Pool.start (Fin n) Bytes).next = 0 from rfl, Nat.zero_min, List.range_zero,
    List.nil_append] at hasked
  exact ⟨⟨_, Nat.min_le_right _ _, hasked⟩, (Pool.inv_start.trace h).1, Pool.answered_subset h⟩

/-- **At every moment** the requests so far are orderly. -/
theorem Reached.orderly (h : Reached lib client txHash count events command) :
    Orderly count events := by
  have hnil : Orderly count [] := ⟨⟨0, Nat.zero_le _, rfl⟩, List.nodup_nil, List.nil_subset _⟩
  cases h with
  | finding => exact hnil
  | notFound => exact hnil
  | fetching _ hsteps => exact orderly_of_steps hsteps
  | rejected _ hsteps => exact orderly_of_steps hsteps
  | settled _ hsteps => exact orderly_of_steps hsteps

/-- **The end.**  With every block served the file holds them in order, each
requested and answered once; otherwise the command has died. -/
theorem Reached.outcome (hlib : lib.Documented) (hn : n = 0 → count = 0)
    (hsize : ∀ blocks, dumpedBlocks lib client txHash count = some blocks →
      (BlockVec.newBuilder blocks).length < 2 ^ 32)
    (h : Reached lib client txHash count events (.ended exit : Command n)) :
    match dumpedBlocks lib client txHash count with
    | some blocks => exit = .written (BlockVec.newBuilder blocks) ∧
        asked events = List.range count ∧ (answered events).Perm (List.range count)
    | none => exit = .died := by
  cases h with
  | notFound hnone => simp [dumpedBlocks, hnone]
  | @rejected startNumber _ i _ _ hstart hsteps hi hfetch =>
      have hserved : servedBlocks lib client startNumber count = none :=
        mapM_eq_none (List.mem_range.mpr hi) hfetch
      simp [dumpedBlocks, hstart, hserved]
  | @settled startNumber _ _ pool hstart hsteps hstop =>
      have hinv := Pool.inv_start.steps hsteps
      simp only [dumpedBlocks, hstart, Option.bind_eq_bind, Option.bind_some] at hsize ⊢
      rcases Nat.eq_zero_or_pos n with rfl | hpos
      · -- no block to fetch, and no worker
        obtain rfl := hn rfl
        have hempty : lib.encodeBlockVec [] = some (BlockVec.newBuilder []) :=
          hlib.encode_items [] (by decide)
        obtain ⟨⟨k, hk, hasked⟩, -, hsub⟩ := orderly_of_steps hsteps
        obtain rfl := Nat.le_zero.mp hk
        rw [hasked, List.range_zero, List.subset_nil] at hsub
        simp [servedBlocks, writeBlocks, hempty, hasked, hsub]
      · have : Nonempty (Fin n) := ⟨⟨0, hpos⟩⟩
        obtain ⟨blocks, hserved, hslots⟩ := slots_of_stopped hinv hstop
        have hencode := hlib.encode_items blocks (hsize blocks hserved)
        simp only [hserved, writeBlocks, hslots, hencode, true_and]
        exact Pool.trace_of_stopped hsteps hstop

/-- **Any order of answers.**  With a worker at all, no run of the command goes on
for ever, and none gets stuck: each can be completed, whatever the answers were so
far.  At every moment the requests are those for the first blocks, in order and
each of them once.  If the node serves every block, the command ends with the file
that holds them in order; if not, it dies. -/
theorem dumpBlocks_any_order (hlib : lib.Documented) (hworkers : 0 < concurrency)
    (hsize : ∀ blocks, dumpedBlocks lib client txHash count = some blocks →
      (BlockVec.newBuilder blocks).length < 2 ^ 32) :
    (∃ bound, ∀ n events command,
      DumpRun lib client txHash count concurrency n events command → n ≤ bound) ∧
    (∀ n events command, DumpRun lib client txHash count concurrency n events command →
      Orderly count events ∧
        ∃ m more exit, Steps (Turn lib client txHash count) command m more (.ended exit)) ∧
    ∀ events exit, DumpBlocks lib client txHash count concurrency events exit →
      match dumpedBlocks lib client txHash count with
      | some blocks => exit = .written (BlockVec.newBuilder blocks) ∧
          asked events = List.range count ∧ (answered events).Perm (List.range count)
      | none => exit = .died := by
  refine ⟨⟨Command.rank count (.finding : Command (min concurrency count)), ?_⟩, ?_, ?_⟩
  · intro n events command hrun
    have := hrun.rank_le (r := Command.rank count) fun _ _ _ => Turn.rank_lt
    omega
  · intro n events command hrun
    have hreached := reached_of_run hrun
    exact ⟨hreached.orderly, hreached.completes⟩
  · rintro events exit ⟨n, hrun⟩
    exact (reached_of_run hrun).outcome hlib (by omega) hsize

/-- A run that has ended exists. -/
theorem exists_dumpBlocks (lib : BlockLibrary) (client : Client) (txHash : List Char)
    (count concurrency : Nat) :
    ∃ events exit, DumpBlocks lib client txHash count concurrency events exit := by
  obtain ⟨m, events, exit, hrun⟩ :=
    (Reached.finding (n := min concurrency count) : Reached lib client txHash count [] _).completes
  exact ⟨events, exit, m, hrun⟩

end Order

/-! ## Behind a node that serves the main chain -/

section Served

variable [Blake2b] {lib : BlockLibrary} {client : Client} {chain : List Bytes}
  {raws : List (List Bytes)} {txs : List ChainTx} {live0 : Live} {ext : ProposalTypeScript.External}
  {IsProposal IsVote : Bytes → Prop} {script : Bytes} {cell : Cell} {hash : Hash32}
  {s i k count concurrency : Nat} {txHashHex : List Char}

/-- The node serves the blocks of the chain. -/
def Client.Serves (client : Client) (chain : List Bytes) : Prop :=
  ∀ (n : Nat) (block : Bytes), chain[n]? = some block →
    client.getBlockByNumber n = some ('0' :: 'x' :: ProposalTypeScript.hexEncode block)

omit [Blake2b] in
/-- A node that serves the chain serves the segment. -/
theorem servedBlocks_eq (hlib : lib.Documented) (hserves : client.Serves chain)
    (hend : s + count ≤ chain.length) :
    servedBlocks lib client s count = some ((chain.drop s).take count) := by
  have hfetch : ∀ i ∈ List.range count,
      fetchBlockBytes lib client (s + i) = some (chain[s + i]?.getD []) := by
    intro i hi
    have hlt : s + i < chain.length := by
      have := List.mem_range.mp hi
      omega
    have hblock : chain[s + i]? = some chain[s + i] := List.getElem?_eq_getElem hlt
    rw [fetchBlockBytes, hserves (s + i) _ hblock, hblock]
    exact hlib.bytesFrom_hex _
  rw [servedBlocks, mapM_eq_some_map hfetch]
  refine congrArg some (List.ext_getElem ?_ fun i hi hi' => ?_)
  · rw [List.length_map, List.length_range, List.length_take, List.length_drop]
    omega
  · have hlt : s + i < chain.length := by
      rw [List.length_map, List.length_range] at hi
      omega
    rw [List.getElem_map, List.getElem_range, List.getElem?_eq_getElem hlt, List.getElem_take,
      List.getElem_drop]
    rfl

omit [Blake2b] in
/-- What is written when the node serves every block. -/
theorem exit_of_served {blocks : List Bytes} (hlib : lib.Documented) (hworkers : 0 < concurrency)
    (hstart : client.getTransaction txHashHex = some (some s))
    (hserved : servedBlocks lib client s count = some blocks)
    (hsize : (BlockVec.newBuilder blocks).length < 2 ^ 32) {events : List Event} {exit : Exit}
    (h : DumpBlocks lib client txHashHex count concurrency events exit) :
    exit = .written (BlockVec.newBuilder blocks) := by
  have hdumped : dumpedBlocks lib client txHashHex count = some blocks :=
    (dumpedBlocks_eq hstart).trans hserved
  obtain ⟨n, hrun⟩ := h
  have hexit := (reached_of_run hrun).outcome hlib (by omega)
    fun blocks' hblocks => Option.some.inj (hdumped.symm.trans hblocks) ▸ hsize
  simp only [hdumped] at hexit
  exact hexit.1

/-- **The dumped file leads to the proposal.**  Behind a node that serves the
main chain, and knows the block of the proposal, the command can be run to its
end, and every such run writes a vector that verifies in full and holds the
segment of the chain from that block on; the host's lookup in it finds the
proposal. -/
theorem dumped_proposal_found (hlib : lib.Documented) (hworkers : 0 < concurrency)
    (hchain : MainChain chain) (hexec : Executes chain raws txs)
    (hhist : History ext IsProposal IsVote live0 txs) (hdistinct : DistinctHashes live0 txs)
    (hproposal : IsProposal script) (hopen : OpenProposal raws txs live0 script cell hash s i k)
    (hserves : client.Serves chain) (hstart : client.getTransaction txHashHex = some (some s))
    (hhash : hexDecode (trimStartMatches txHashHex) = some hash.val) (hpos : 0 < count)
    (hend : s + count ≤ chain.length)
    (hsize : (BlockVec.newBuilder ((chain.drop s).take count)).length < 2 ^ 32) :
    (∃ events exit, DumpBlocks lib client txHashHex count concurrency events exit) ∧
    ∀ events exit, DumpBlocks lib client txHashHex count concurrency events exit →
      ∃ file, exit = .written file ∧ BlockVecReader.verify true file = .ok () ∧
        blockSlices file = (chain.drop s).take count ∧
        findProposalInFirstBlock file txHashHex i = .ok (cell.data, script) := by
  refine ⟨exists_dumpBlocks lib client txHashHex count concurrency, fun events exit h => ?_⟩
  have hexit := exit_of_served hlib hworkers hstart (servedBlocks_eq hlib hserves hend) hsize h
  obtain ⟨hverify, hslices⟩ := segment_verifies (fun block hblock =>
    hchain.verified block (List.mem_of_mem_drop (List.mem_of_mem_take hblock))) hsize
  have hs : s < chain.length := by omega
  have hblock : chain[s]? = some chain[s] := List.getElem?_eq_getElem hs
  have hhead :
      (blockSlices (BlockVec.newBuilder ((chain.drop s).take count))).head? = some chain[s] := by
    rw [hslices, List.head?_eq_getElem?, List.getElem?_take_of_lt hpos, List.getElem?_drop,
      Nat.add_zero, hblock]
  obtain ⟨-, hparse, -⟩ := checked_of_open hhist hproposal hopen
  exact ⟨_, hexit, hverify, hslices,
    (lookup_of_open hexec hdistinct hverify hhead hblock hopen hparse hhash).1⟩

end Served

/-! ## A sample node -/

section Sample

open CkbVote.Sample

local instance (priority := 2000) dumpHash : Blake2b := storyBlake2b

/-- A library that decodes hexadecimal and has no holes. -/
def hexLibrary : BlockLibrary where
  bytesFrom text := hexDecode (text.drop 2)
  encodeBlockVec items := (items.mapM id).map BlockVec.newBuilder

theorem hexVal_digitChar : ∀ d < 16, hexVal (Nat.digitChar d) = some d := by decide

/-- Hex is decoded to what was encoded. -/
theorem hexDecode_hexEncode (b : Bytes) : hexDecode (ProposalTypeScript.hexEncode b) = some b := by
  induction b with
  | nil => rfl
  | cons x b ih =>
      have hhigh := hexVal_digitChar (x.toNat / 16) (by have := x.toNat_lt; omega)
      have hlow := hexVal_digitChar (x.toNat % 16) (by omega)
      have hbyte : UInt8.ofNat (16 * (x.toNat / 16) + x.toNat % 16) = x := by
        rw [Nat.div_add_mod, UInt8.ofNat_toNat]
      rw [ProposalTypeScript.hexEncode, List.flatMap_cons, List.cons_append, List.cons_append,
        List.nil_append, hexDecode, hhigh, hlow, ← ProposalTypeScript.hexEncode, ih]
      show some (UInt8.ofNat (16 * (x.toNat / 16) + x.toNat % 16) :: b) = some (x :: b)
      rw [hbyte]

/-- The sample library behaves as documented. -/
theorem hexLibrary_documented : hexLibrary.Documented where
  bytesFrom_hex b := hexDecode_hexEncode b
  encode_items blocks _ := by
    have hitems : (blocks.map some).mapM id = some blocks := by
      rw [mapM_eq_some_map (g := fun item => item.getD []) (by simp), List.map_map]
      simp
    exact congrArg (Option.map BlockVec.newBuilder) hitems

/-- A node with the two blocks of the sample history. -/
def storyClient : Client where
  getTransaction txHash := if txHash = createHashHex then some (some 0) else none
  getBlockByNumber n := [storyBlock0, storyBlock1][n]?.map fun block =>
    '0' :: 'x' :: ProposalTypeScript.hexEncode block

theorem storyClient_serves : storyClient.Serves [storyBlock0, storyBlock1] := fun _ _ hblock =>
  congrArg (Option.map fun block => '0' :: 'x' :: ProposalTypeScript.hexEncode block) hblock

theorem storyClient_transaction : storyClient.getTransaction createHashHex = some (some 0) := by
  simp [storyClient]

theorem storyClient_served :
    servedBlocks hexLibrary storyClient 0 2 = some [storyBlock0, storyBlock1] :=
  servedBlocks_eq hexLibrary_documented storyClient_serves (by decide)

theorem storyClient_dumped :
    dumpedBlocks hexLibrary storyClient createHashHex 2 = some [storyBlock0, storyBlock1] :=
  (dumpedBlocks_eq storyClient_transaction).trans storyClient_served

/-- Three workers for two blocks. -/
theorem dumpBlocks_any_order_story :
    (∃ bound, ∀ n events command,
      DumpRun hexLibrary storyClient createHashHex 2 3 n events command → n ≤ bound) ∧
    (∀ n events command, DumpRun hexLibrary storyClient createHashHex 2 3 n events command →
      Orderly 2 events ∧ ∃ m more exit,
        Steps (Turn hexLibrary storyClient createHashHex 2) command m more (.ended exit)) ∧
    ∀ events exit, DumpBlocks hexLibrary storyClient createHashHex 2 3 events exit →
      match dumpedBlocks hexLibrary storyClient createHashHex 2 with
      | some blocks => exit = .written (BlockVec.newBuilder blocks) ∧
          asked events = List.range 2 ∧ (answered events).Perm (List.range 2)
      | none => exit = .died := by
  have hsize : ∀ blocks, dumpedBlocks hexLibrary storyClient createHashHex 2 = some blocks →
      (BlockVec.newBuilder blocks).length < 2 ^ 32 := by
    intro blocks hblocks
    obtain rfl := Option.some.inj (storyClient_dumped.symm.trans hblocks)
    exact storyChain_reads.2.2.2
  have hworkers : 0 < 3 := by decide
  have h := dumpBlocks_any_order hexLibrary_documented hworkers hsize
  exact h

theorem dumped_proposal_found_story : ∃ events file,
    DumpBlocks hexLibrary storyClient createHashHex 2 3 events (.written file) ∧
      BlockVecReader.verify true file = .ok () ∧
      blockSlices file = ([storyBlock0, storyBlock1].drop 0).take 2 ∧
      findProposalInFirstBlock file createHashHex 0 = .ok (storyCell.data, proposalScript) := by
  obtain ⟨-, hproposal, hhash, -⟩ := settlement_reads
  have hlength :
      (BlockVec.newBuilder (([storyBlock0, storyBlock1].drop 0).take 2)).length < 2 ^ 32 :=
    storyChain_reads.2.2.2
  have h := dumped_proposal_found hexLibrary_documented (by decide : 0 < 3) storyChain
    story_executes story_history story_distinct hproposal story_open storyClient_serves
    storyClient_transaction hhash (by decide) (by decide) hlength
  obtain ⟨⟨events, exit, hdump⟩, hfound⟩ := h
  obtain ⟨file, rfl, hfile⟩ := hfound events exit hdump
  exact ⟨events, file, hdump, hfile⟩

end Sample

end Sdk

end CkbVote
