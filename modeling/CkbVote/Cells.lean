import CkbVote.Verified

/-!
# Cells, transactions and what a script can load

The part of the chain that the two type scripts run in.  A transaction is
executed against the live cells: its inputs and cell deps are resolved, a cell
dep of type `dep_group` being replaced, in place and in order, by the out
points listed in its cell's data.  The loaders are those of the script standard
library: `load_cell_lock`, `load_cell_type` and `load_script` check what they
load against the strict `Script` schema, and an iterator over a source panics
on every error but the end of the source.
-/

namespace CkbVote

open Octets Molecule

/-! ## Cells and transactions -/

structure Cell where
  capacity : Nat
  lock : Bytes
  type_ : Option Bytes
  data : Bytes
deriving DecidableEq

structure CellInput where
  since : FixedBytes 8
  previousOutput : OutPoint
deriving DecidableEq

/-- A serialized input. -/
def CellInput.asSlice (input : CellInput) : Bytes := input.since.val ++ input.previousOutput.val

structure CellDep where
  outPoint : OutPoint
  depType : UInt8
deriving DecidableEq

structure ChainTx where
  hash : Hash32
  cellDeps : List CellDep
  headerDeps : List Hash32
  inputs : List CellInput
  outputs : List Cell
  witnesses : List Bytes
deriving DecidableEq

/-- The out point of output `index` of a transaction. -/
def outPointOf (hash : Hash32) (index : Nat) : OutPoint :=
  ⟨hash.val ++ leBytes 4 index, by simp⟩

/-- The live cells. -/
abbrev Live := OutPoint → Option Cell

def ChainTx.created (tx : ChainTx) (op : OutPoint) : Option Cell :=
  (tx.outputs.zipIdx.find? fun p => outPointOf tx.hash p.2 = op).map Prod.fst

/-- The live cells after a transaction: its inputs are gone, its outputs are
there. -/
def ChainTx.applyTo (tx : ChainTx) (live : Live) : Live := fun op =>
  match tx.created op with
  | some cell => some cell
  | none => if op ∈ tx.inputs.map CellInput.previousOutput then none else live op

/-- A cell that a transaction creates is one of its outputs. -/
theorem ChainTx.created_eq_some {tx : ChainTx} {op : OutPoint} {cell : Cell}
    (h : tx.created op = some cell) :
    ∃ i, tx.outputs[i]? = some cell ∧ outPointOf tx.hash i = op := by
  obtain ⟨⟨cell', i⟩, hfind, rfl⟩ := Option.map_eq_some_iff.mp h
  have hmem := List.mem_of_find?_eq_some hfind
  have hop := List.find?_some hfind
  exact ⟨i, List.mem_zipIdx_iff_getElem?.mp hmem, by simpa using hop⟩

/-! ## Transactions from bytes -/

/-- Cell dep `k` of a `CellDepVec`. -/
def readCellDep (cellDeps : Bytes) (k : Nat) : Run CellDep := do
  let dep ← FixVec.getUnchecked 37 cellDeps k
  let outPoint ← toFixed 36 (.expect "OutPoint is always 36 bytes") (← CellDepReader.outPoint dep)
  let depType ← firstByte (← CellDepReader.depType dep)
  .ok ⟨outPoint, depType⟩

/-- Input `k` of a `CellInputVec`. -/
def readInput (inputs : Bytes) (k : Nat) : Run CellInput := do
  let input ← FixVec.getUnchecked 44 inputs k
  let since ← toFixed 8 .lengthMismatch (← readSlice input 0 8)
  let previousOutput ← toFixed 36 (.expect "OutPoint is always 36 bytes")
    (← CellInputReader.previousOutput input)
  .ok ⟨since, previousOutput⟩

/-- Output `j` with its data. -/
def readCell (outputs outputsData : Bytes) (j : Nat) : Run Cell := do
  let output ← DynVec.getUnchecked outputs j
  let capacity ← fromLeBytes 8 "Uint64 is 8 bytes" (← CellOutputReader.capacity output)
  let lock ← CellOutputReader.lock output
  let typeScript ← CellOutputReader.type_ output
  let data ← rawData (← DynVec.getUnchecked outputsData j)
  .ok ⟨capacity, lock, toOpt typeScript, data⟩

/-- The transaction behind raw bytes.  A node takes only transactions with as
many data items as outputs. -/
def ChainTx.ofRaw [Blake2b] (raw : Bytes) (witnesses : List Bytes) : Run ChainTx := do
  let cellDeps ← RawTransactionReader.cellDeps raw
  let deps ← readRange (readCellDep cellDeps) (← FixVec.itemCount cellDeps) 0
  let headerDeps ← RawTransactionReader.headerDeps raw
  let headers ← readRange (fun k => do
    let hash ← FixVec.getUnchecked 32 headerDeps k
    toFixed 32 .lengthMismatch hash) (← FixVec.itemCount headerDeps) 0
  let inputs ← RawTransactionReader.inputs raw
  let spent ← readRange (readInput inputs) (← FixVec.itemCount inputs) 0
  let outputs ← RawTransactionReader.outputs raw
  let outputsData ← RawTransactionReader.outputsData raw
  let count ← itemCount outputs
  if (← itemCount outputsData) ≠ count then .error .lengthMismatch
  else
    let cells ← readRange (readCell outputs outputsData) count 0
    .ok ⟨blake2b256 raw, deps, headers, spent, cells, witnesses⟩

/-! ## Resolution -/

/-- The out points listed in the data of a dep group's cell. -/
def parseDepGroup (data : Bytes) : Option (List OutPoint) := do
  let content ← (fromSlice OutPointVecReader.verify data).toOption
  if FixVec.items 36 content = [] then none
  else (FixVec.items 36 content).mapM fun op => (toFixed 36 .lengthMismatch op).toOption

/-- The out points one cell dep stands for. -/
def expandDep (live : Live) (dep : CellDep) : Option (List OutPoint) := do
  if dep.depType = 0 then some [dep.outPoint]
  else if dep.depType = 1 then
    let cell ← live dep.outPoint
    parseDepGroup cell.data
  else none

/-- A transaction with the cells and headers it refers to. -/
structure ResolvedTx where
  tx : ChainTx
  inputs : List Cell
  cellDeps : List (OutPoint × Cell)
  headerDeps : List Bytes
deriving DecidableEq

def resolve (live : Live) (headerOf : Hash32 → Option Bytes) (tx : ChainTx) :
    Option ResolvedTx := do
  let inputs ← tx.inputs.mapM fun input => live input.previousOutput
  let expanded ← tx.cellDeps.mapM (expandDep live)
  let cellDeps ← expanded.flatten.mapM fun op => (live op).map fun cell => (op, cell)
  let headerDeps ← tx.headerDeps.mapM headerOf
  some ⟨tx, inputs, cellDeps, headerDeps⟩

/-- Mapping succeeds on a list when it does on head and tail. -/
theorem mapM_cons_eq_some {α β : Type} {f : α → Option β} {a : α} {l : List α} {l' : List β} :
    (a :: l).mapM f = some l' ↔ ∃ b bs, f a = some b ∧ l.mapM f = some bs ∧ l' = b :: bs := by
  cases ha : f a <;> cases hl : l.mapM f <;> simp [List.mapM_cons, ha, hl, eq_comm]

/-- Mapping with a partial function that succeeds on a whole list. -/
theorem mapM_eq_some {α β : Type} {f : α → Option β} {l : List α} {l' : List β} :
    l.mapM f = some l' ↔ l.map f = l'.map some := by
  induction l generalizing l' with
  | nil => cases l' <;> simp
  | cons a l ih =>
      rw [mapM_cons_eq_some]
      cases l' with
      | nil => simp
      | cons b' bs' => simp [ih]

/-- Each item of the result comes from one of the list. -/
theorem mem_of_mapM {α β : Type} {f : α → Option β} {l : List α} {l' : List β}
    (h : l.mapM f = some l') {b : β} (hb : b ∈ l') : ∃ a ∈ l, f a = some b := by
  have hmem : some b ∈ l.map f := by
    rw [mapM_eq_some.mp h]
    exact List.mem_map.mpr ⟨b, hb, rfl⟩
  exact List.mem_map.mp hmem

/-- Pairing items with what they map to keeps the items. -/
theorem map_fst_of_mapM {α β : Type} {f : α → Option β} {l : List α} {pairs : List (α × β)}
    (h : l.mapM (fun a => (f a).map fun b => (a, b)) = some pairs) : pairs.map Prod.fst = l := by
  induction l generalizing pairs with
  | nil =>
      obtain rfl : pairs = [] := by simpa using h.symm
      rfl
  | cons a l ih =>
      obtain ⟨pair, rest, hpair, hrest, rfl⟩ := mapM_cons_eq_some.mp h
      obtain ⟨b, -, rfl⟩ := Option.map_eq_some_iff.mp hpair
      simp [ih hrest]

/-- What resolution looks up. -/
structure Resolves (live : Live) (headerOf : Hash32 → Option Bytes) (tx : ChainTx)
    (rtx : ResolvedTx) : Prop where
  tx_eq : rtx.tx = tx
  inputs : tx.inputs.map (fun input => live input.previousOutput) = rtx.inputs.map some
  cellDeps : ∃ expanded : List (List OutPoint),
    tx.cellDeps.map (expandDep live) = expanded.map some ∧
    rtx.cellDeps.map Prod.fst = expanded.flatten
  live_dep : ∀ dep ∈ rtx.cellDeps, live dep.1 = some dep.2
  headerDeps : tx.headerDeps.map headerOf = rtx.headerDeps.map some

/-- What `resolve` returns has the cells and headers of the transaction. -/
theorem resolves_of_resolve {live : Live} {headerOf : Hash32 → Option Bytes} {tx : ChainTx}
    {rtx : ResolvedTx} (h : resolve live headerOf tx = some rtx) :
    Resolves live headerOf tx rtx := by
  simp only [resolve, Option.bind_eq_bind, Option.bind_eq_some_iff, Option.some.injEq] at h
  obtain ⟨inputs, hinputs, expanded, hexpanded, cellDeps, hdeps, headers, hheaders, rfl⟩ := h
  refine ⟨rfl, mapM_eq_some.mp hinputs, ⟨expanded, mapM_eq_some.mp hexpanded, ?_⟩, ?_,
    mapM_eq_some.mp hheaders⟩
  · exact map_fst_of_mapM hdeps
  · intro dep hdep
    obtain ⟨op, -, hop⟩ := mem_of_mapM hdeps hdep
    obtain ⟨cell, hcell, rfl⟩ := Option.map_eq_some_iff.mp hop
    exact hcell

/-! ## Loading -/

/-- The system errors that the loaders tell apart. -/
inductive SysError
  | indexOutOfBound
  | encoding
deriving DecidableEq, Repr

/-- A script run ends with an error code of the script or in a panic. -/
inductive Fault (ε : Type)
  | exit (error : ε)
  | panic
deriving DecidableEq, Repr

abbrev ScriptRun (ε : Type) := Except (Fault ε)

section Loaders

variable {ε α : Type}

/-- `.map_err(|_| error)?`. -/
def orExit {δ : Type} (error : ε) : Except δ α → ScriptRun ε α
  | .ok a => .ok a
  | .error _ => .error (.exit error)

/-- An unchecked read inside a script. -/
def orPanic {δ : Type} : Except δ α → ScriptRun ε α
  | .ok a => .ok a
  | .error _ => .error .panic

/-- Turning an error into an exit code keeps the successes. -/
theorem orExit_eq_ok {δ : Type} {error : ε} {x : Except δ α} {a : α} :
    orExit error x = .ok a ↔ x = .ok a := by
  cases x <;> simp [orExit]

/-- Turning an error into a panic keeps the successes. -/
theorem orPanic_eq_ok {δ : Type} {x : Except δ α} {a : α} :
    (orPanic x : ScriptRun ε α) = .ok a ↔ x = .ok a := by
  cases x <;> simp [orPanic]

def checkScript (script : Bytes) : Except SysError Bytes :=
  match ScriptReader.verify false script with
  | .ok () => .ok script
  | .error _ => .error .encoding

/-- A script that is loaded verifies strictly. -/
theorem checkScript_eq_ok {script s : Bytes} :
    checkScript script = .ok s ↔ ScriptReader.verify false script = .ok () ∧ script = s := by
  unfold checkScript
  split <;> simp [*]

def Cell.loadLock (cell : Cell) : Except SysError Bytes := checkScript cell.lock

def Cell.loadType (cell : Cell) : Except SysError (Option Bytes) :=
  match cell.type_ with
  | none => .ok none
  | some script => (checkScript script).map some

/-- A type script that is loaded is that of the cell. -/
theorem Cell.type_of_loadType {cell : Cell} {script : Bytes}
    (h : cell.loadType = .ok (some script)) : cell.type_ = some script := by
  cases htype : cell.type_ with
  | none =>
      simp only [Cell.loadType, htype] at h
      cases h
  | some found =>
      simp only [Cell.loadType, htype] at h
      cases hcheck : checkScript found with
      | error e => simp [hcheck, Except.map] at h
      | ok loaded =>
          obtain ⟨-, rfl⟩ := checkScript_eq_ok.mp hcheck
          simp only [hcheck, Except.map, Except.ok.injEq] at h
          exact h

def Cell.loadCapacity (cell : Cell) : Except SysError Nat := .ok cell.capacity

def Cell.loadData (cell : Cell) : Except SysError Bytes := .ok cell.data

/-- A loader applied to position `i` of a source. -/
def loadAt (cells : List Cell) (i : Nat) (load : Cell → Except SysError α) : Except SysError α :=
  match cells[i]? with
  | none => .error .indexOutOfBound
  | some cell => load cell

/-- A load at an index succeeds when there is a cell and its load succeeds. -/
theorem loadAt_eq_ok {cells : List Cell} {i : Nat} {load : Cell → Except SysError α} {a : α} :
    loadAt cells i load = .ok a ↔ ∃ cell, cells[i]? = some cell ∧ load cell = .ok a := by
  unfold loadAt
  cases cells[i]? <;> simp

/-- `QueryIter::new(load, source).any(p)`. -/
def queryAny (load : Cell → Except SysError α) (p : α → Bool) : List Cell → ScriptRun ε Bool
  | [] => .ok false
  | cell :: cells => do
      let a ← orPanic (load cell)
      if p a then .ok true else queryAny load p cells

/-- `QueryIter::new(load, source).filter(p).count()`. -/
def queryCount (load : Cell → Except SysError α) (p : α → Bool) : List Cell → ScriptRun ε Nat
  | [] => .ok 0
  | cell :: cells => do
      let a ← orPanic (load cell)
      let count ← queryCount load p cells
      .ok (if p a then count + 1 else count)

/-- A query that holds has found a cell. -/
theorem queryAny_eq_true {load : Cell → Except SysError α} {p : α → Bool} {cells : List Cell}
    (h : (queryAny load p cells : ScriptRun ε Bool) = .ok true) :
    ∃ cell ∈ cells, ∃ a, load cell = .ok a ∧ p a = true := by
  induction cells with
  | nil => cases h
  | cons cell cells ih =>
      obtain ⟨a, hload, h⟩ := bind_eq_ok.mp h
      by_cases hp : p a = true
      · exact ⟨cell, by simp, a, orPanic_eq_ok.mp hload, hp⟩
      · rw [if_neg hp] at h
        obtain ⟨found, hmem, hfound⟩ := ih h
        exact ⟨found, by simp [hmem], hfound⟩

/-- A finished count has loaded every cell. -/
theorem queryCount_eq_ok {load : Cell → Except SysError α} {p : α → Bool} {cells : List Cell}
    {n : Nat} (h : (queryCount load p cells : ScriptRun ε Nat) = .ok n) :
    ∃ items : List α, cells.map load = items.map .ok ∧ n = items.countP p := by
  induction cells generalizing n with
  | nil =>
      cases h
      exact ⟨[], rfl, rfl⟩
  | cons cell cells ih =>
      obtain ⟨a, hload, h⟩ := bind_eq_ok.mp h
      obtain ⟨count, hcount, h⟩ := bind_eq_ok.mp h
      obtain ⟨items, hitems, rfl⟩ := ih hcount
      cases h
      refine ⟨a :: items, ?_, ?_⟩
      · simp [hitems, orPanic_eq_ok.mp hload]
      · rw [List.countP_cons]
        split_ifs <;> rfl

end Loaders

section Groups

variable [Blake2b]

/-- `load_cell_type_hash`. -/
def Cell.typeHash (cell : Cell) : Option Hash32 := cell.type_.map blake2b256

def Cell.loadTypeHash (cell : Cell) : Except SysError (Option Hash32) := .ok cell.typeHash

/-- The cells of a source that belong to the group of a type script. -/
def group (script : Bytes) (cells : List Cell) : List Cell :=
  cells.filter fun cell => cell.typeHash = some (blake2b256 script)

/-- The position of the first input in the group of a type script. -/
def firstGroupInput (rtx : ResolvedTx) (script : Bytes) : Option Nat :=
  rtx.inputs.findIdx? fun cell => cell.typeHash = some (blake2b256 script)

end Groups

end CkbVote
