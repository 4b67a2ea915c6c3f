import Mathlib.Algebra.Ring.Nat
import Mathlib.Data.List.Basic
import Mathlib.Data.List.Forall2

/-!
# Byte strings, little-endian numbers and runs that may panic

A byte string is a list of bytes.  Slicing has two readings.  `slice` is total
and is used where a length check stands in front of the read; `readSlice` is
the indexing of a program, which stops the run when the range does not fit.

Two loop forms are kept as functions of their own: `forRange`, a counted loop
whose body updates a state, and `findRange`, a counted loop whose body may
leave early with a result.  `forRange_eq_foldlM` and `findRange_eq_findList`
turn a counted loop over a readable sequence into a recursion over its items.
-/

namespace Octets

abbrev Bytes := List UInt8

/-- Why a run stops without a result. -/
inductive Panic
  | sliceIndex
  | lengthMismatch
  | expect (message : String)
  | outOfFuel
deriving DecidableEq, Repr

/-- A run either returns a value or panics. -/
abbrev Run := Except Panic

@[simp] theorem ok_bind {ε α β : Type} (a : α) (f : α → Except ε β) :
    (Except.ok a >>= f) = f a := rfl

@[simp] theorem error_bind {ε α β : Type} (e : ε) (f : α → Except ε β) :
    ((Except.error e : Except ε α) >>= f) = .error e := rfl

/-- A bind that succeeds, split into its two halves. -/
theorem bind_eq_ok {ε α β : Type} {x : Except ε α} {f : α → Except ε β} {b : β} :
    (x >>= f) = .ok b ↔ ∃ a, x = .ok a ∧ f a = .ok b := by
  cases x with
  | error e => simp
  | ok a => simp

/-- A check and what follows it succeed together. -/
theorem bind_unit_eq_ok {ε β : Type} {x : Except ε Unit} {f : Unit → Except ε β} {b : β} :
    (x >>= f) = .ok b ↔ x = .ok () ∧ f () = .ok b := by
  cases x with
  | error e => simp
  | ok a => simp

/-- A guard that is passed. -/
theorem guard_eq_ok {ε α : Type} {c : Prop} [Decidable c] {e : ε} {x : Except ε α} {a : α} :
    (if c then .error e else x) = .ok a ↔ ¬ c ∧ x = .ok a := by
  split_ifs with hc <;> simp [hc]

/-- A bind succeeds when both halves do. -/
theorem exists_ok_bind {ε α β : Type} {x : Except ε α} {f : α → Except ε β}
    (hx : ∃ a, x = .ok a) (hf : ∀ a, x = .ok a → ∃ b, f a = .ok b) :
    ∃ b, (x >>= f) = .ok b := by
  obtain ⟨a, ha⟩ := hx
  obtain ⟨b, hb⟩ := hf a ha
  exact ⟨b, by rw [ha, ok_bind, hb]⟩

/-! ## Little-endian numbers -/

/-- The number a byte string stands for, least significant byte first. -/
def leNat : Bytes → Nat
  | [] => 0
  | b :: bs => b.toNat + 256 * leNat bs

/-- The `width` low bytes of a number, least significant first. -/
def leBytes : Nat → Nat → Bytes
  | 0, _ => []
  | width + 1, n => UInt8.ofNat (n % 256) :: leBytes width (n / 256)

@[simp] theorem length_leBytes (width n : Nat) : (leBytes width n).length = width := by
  induction width generalizing n with
  | zero => rfl
  | succ width ih => simp [leBytes, ih]

theorem leNat_lt (b : Bytes) : leNat b < 256 ^ b.length := by
  induction b with
  | nil => simp [leNat]
  | cons x xs ih =>
      have hx := x.toNat_lt
      simp only [leNat, List.length_cons, Nat.pow_succ]
      omega

/-- A number that fits is read back from its bytes. -/
theorem leNat_leBytes {width n : Nat} (h : n < 256 ^ width) :
    leNat (leBytes width n) = n := by
  induction width generalizing n with
  | zero => simp at h; simp [leBytes, leNat, h]
  | succ width ih =>
      rw [Nat.pow_succ] at h
      have hrest := ih (n := n / 256) (by omega)
      simp only [leBytes, leNat, hrest, UInt8.toNat_ofNat']
      omega

/-- Bytes are the encoding of the number they hold. -/
theorem leBytes_leNat (b : Bytes) : leBytes b.length (leNat b) = b := by
  induction b with
  | nil => rfl
  | cons x xs ih =>
      have hx := x.toNat_lt
      have hlow : (x.toNat + 256 * leNat xs) % 256 = x.toNat := by omega
      have hhigh : (x.toNat + 256 * leNat xs) / 256 = leNat xs := by omega
      simp only [leNat, List.length_cons, leBytes, hlow, hhigh, ih]
      simp

/-! ## Slices -/

/-- The bytes from position `a` up to, not including, position `b`. -/
def slice (s : Bytes) (a b : Nat) : Bytes := (s.drop a).take (b - a)

/-- `&s[a..b]`: the slice, or a panic when the range is not inside `s`. -/
def readSlice (s : Bytes) (a b : Nat) : Run Bytes :=
  if a ≤ b ∧ b ≤ s.length then .ok (slice s a b) else .error .sliceIndex

theorem readSlice_ok {s : Bytes} {a b : Nat} (hab : a ≤ b) (hb : b ≤ s.length) :
    readSlice s a b = .ok (slice s a b) := if_pos ⟨hab, hb⟩

theorem length_slice {s : Bytes} {a b : Nat} (hb : b ≤ s.length) :
    (slice s a b).length = b - a := by
  simp [slice]; omega

theorem slice_all (s : Bytes) : slice s 0 s.length = s := by simp [slice]

/-- Two adjacent slices make up the slice over both. -/
theorem slice_append_slice {s : Bytes} {a b c : Nat} (hab : a ≤ b) (hbc : b ≤ c) :
    slice s a b ++ slice s b c = slice s a c := by
  have hdrop : s.drop b = (s.drop a).drop (b - a) := by rw [List.drop_drop]; congr 1; omega
  have hlen : c - a = (b - a) + (c - b) := by omega
  unfold slice
  rw [hdrop, hlen, List.take_add]

/-- A slice that lies behind a prefix is a slice of what follows the prefix. -/
theorem slice_append_right (pre s : Bytes) (a b : Nat) :
    slice (pre ++ s) (pre.length + a) (pre.length + b) = slice s a b := by
  have hlen : pre.length + b - (pre.length + a) = b - a := by omega
  have hdrop : (pre ++ s).drop (pre.length + a) = s.drop a := by
    rw [← List.drop_drop, List.drop_left]
  rw [slice, slice, hlen, hdrop]

/-- The part in the middle of three is the slice between its two ends. -/
theorem slice_middle (pre part post : Bytes) :
    slice (pre ++ (part ++ post)) pre.length (pre.length + part.length) = part := by
  simp [slice]

/-- A slice inside the first part of an append does not see the second. -/
theorem slice_slice {s : Bytes} {a b c d : Nat} (hd : d ≤ b - a) :
    slice (slice s a b) c d = slice s (a + c) (a + d) := by
  unfold slice
  rw [List.drop_take, List.take_take, List.drop_drop]
  congr 1
  omega

/-! ## Byte strings of a fixed length -/

/-- `[u8; n]`. -/
@[ext] structure FixedBytes (n : Nat) where
  val : Bytes
  property : val.length = n
deriving DecidableEq

variable {n : Nat}

@[simp] theorem FixedBytes.length_val (a : FixedBytes n) : a.val.length = n := a.property

instance : Ord (FixedBytes n) := ⟨fun a b => compare a.val b.val⟩

instance : Std.TransOrd (FixedBytes n) where
  eq_swap := fun {a b} => Std.OrientedOrd.eq_swap (a := a.val) (b := b.val)
  isLE_trans := fun {a b c} h₁ h₂ =>
    Std.TransOrd.isLE_trans (a := a.val) (b := b.val) (c := c.val) h₁ h₂

instance : Std.LawfulEqOrd (FixedBytes n) where
  compare_self := fun {a} => Std.ReflOrd.compare_self (a := a.val)
  eq_of_compare := fun {_ _} h => FixedBytes.ext (Std.LawfulEqOrd.eq_of_compare h)

/-- `n` zero bytes. -/
def FixedBytes.zero (n : Nat) : FixedBytes n := ⟨List.replicate n 0, by simp⟩

/-- A slice turned into an array; another length panics with `fault`. -/
def toFixed (n : Nat) (fault : Panic) (b : Bytes) : Run (FixedBytes n) :=
  if h : b.length = n then .ok ⟨b, h⟩ else .error fault

theorem toFixed_ok (fault : Panic) {b : Bytes} (h : b.length = n) :
    toFixed n fault b = .ok ⟨b, h⟩ := dif_pos h

/-- A conversion that succeeds keeps the bytes. -/
theorem toFixed_eq_ok {fault : Panic} {b : Bytes} {a : FixedBytes n} :
    toFixed n fault b = .ok a ↔ b = a.val := by
  unfold toFixed
  constructor
  · intro h
    split at h
    · cases h; rfl
    · cases h
  · intro h
    subst h
    exact dif_pos a.property

/-! ## Loops -/

section Loops

variable {ε σ α β : Type}

/-- `for i in start..start + count { … }`. -/
def forRange (body : Nat → σ → Except ε σ) : (count start : Nat) → σ → Except ε σ
  | 0, _, s => .ok s
  | count + 1, i, s => do
      let s' ← body i s
      forRange body count (i + 1) s'

/-- A counted loop whose body at `start + i` is one step on item `i` is the
fold of that step over the items. -/
theorem forRange_eq_foldlM {body : Nat → σ → Except ε σ} {step : σ → α → Except ε σ}
    (items : List α) (start : Nat)
    (h : ∀ (i : Nat) (hi : i < items.length) (s : σ), body (start + i) s = step s items[i])
    (s : σ) :
    forRange body items.length start s = items.foldlM step s := by
  induction items generalizing start s with
  | nil => rfl
  | cons item items ih =>
      have hhead : body start s = step s item := h 0 (by simp) s
      have htail := fun s => ih (start + 1) (fun i hi s => by
        have := h (i + 1) (by simpa using hi) s
        simpa [Nat.add_assoc, Nat.add_comm 1 i] using this) s
      simp only [List.length_cons, forRange, List.foldlM_cons, hhead]
      exact congrArg (step s item >>= ·) (funext htail)

/-- The items `get start, …, get (start + count - 1)`, read in order. -/
def readRange (get : Nat → Except ε α) : (count start : Nat) → Except ε (List α)
  | 0, _ => .ok []
  | count + 1, i => do
      let item ← get i
      let items ← readRange get count (i + 1)
      .ok (item :: items)

/-- A list of items is read exactly when each of them is read at its position. -/
theorem readRange_eq_ok {get : Nat → Except ε α} {count start : Nat} {items : List α} :
    readRange get count start = .ok items ↔
      items.length = count ∧
        ∀ (i : Nat) (hi : i < items.length), get (start + i) = .ok items[i] := by
  induction count generalizing start items with
  | zero =>
      constructor
      · intro h; cases h; exact ⟨rfl, fun i hi => absurd hi (Nat.not_lt_zero i)⟩
      · rintro ⟨hlen, -⟩; rw [List.length_eq_zero_iff.mp hlen]; rfl
  | succ count ih =>
      constructor
      · intro h
        obtain ⟨item, hget, hrest⟩ := bind_eq_ok.mp h
        obtain ⟨rest, hread, hcons⟩ := bind_eq_ok.mp hrest
        cases hcons
        obtain ⟨hlen, hitems⟩ := ih.mp hread
        refine ⟨by simp [hlen], ?_⟩
        intro i hi
        cases i with
        | zero => simpa using hget
        | succ i =>
            have := hitems i (by simpa using hi)
            simpa [Nat.add_assoc, Nat.add_comm 1 i] using this
      · intro h
        obtain ⟨hlen, hitems⟩ := h
        cases items with
        | nil => simp at hlen
        | cons item rest =>
            have hget : get start = .ok item := hitems 0 (by simp)
            have hread : readRange get count (start + 1) = .ok rest := by
              refine ih.mpr ⟨by simpa using hlen, ?_⟩
              intro i hi
              have := hitems (i + 1) (by simpa using hi)
              simpa [Nat.add_assoc, Nat.add_comm 1 i] using this
            simp [readRange, hget, hread]

/-- A range whose items can all be read is read. -/
theorem exists_readRange {get : Nat → Except ε α} {count start : Nat}
    (h : ∀ i < count, ∃ a, get (start + i) = .ok a) :
    ∃ items, readRange get count start = .ok items := by
  induction count generalizing start with
  | zero => exact ⟨[], rfl⟩
  | succ count ih =>
      have hrest : ∃ items, readRange get count (start + 1) = .ok items := by
        refine ih fun i hi => ?_
        have := h (i + 1) (by omega)
        simpa [Nat.add_assoc, Nat.add_comm 1 i] using this
      exact exists_ok_bind (h 0 (by omega)) fun a _ => exists_ok_bind hrest fun items _ => ⟨_, rfl⟩

/-- Reading through a second step is reading first and then taking the step on
every item. -/
theorem readRange_bind {get : Nat → Except ε α} {f : α → Except ε β} {count start : Nat}
    {items : List β} : readRange (fun i => get i >>= f) count start = .ok items ↔
      ∃ as, readRange get count start = .ok as ∧ as.map f = items.map .ok := by
  induction count generalizing start items with
  | zero =>
      constructor
      · intro h; cases h; exact ⟨[], rfl, rfl⟩
      · intro h
        obtain ⟨as, h, hmap⟩ := h
        cases h
        rw [List.map_eq_nil_iff.mp hmap.symm]
        rfl
  | succ count ih =>
      simp only [readRange, bind_eq_ok, Except.ok.injEq]
      constructor
      · intro h
        obtain ⟨b, ⟨a, ha, hb⟩, bs, hbs, rfl⟩ := h
        obtain ⟨as, has, hmap⟩ := ih.mp hbs
        exact ⟨a :: as, ⟨a, ha, as, has, rfl⟩, by simp [hb, hmap]⟩
      · intro h
        obtain ⟨_, ⟨a, ha, as, has, rfl⟩, hmap⟩ := h
        cases items with
        | nil => simp at hmap
        | cons b bs =>
            simp only [List.map_cons, List.cons.injEq] at hmap
            exact ⟨b, ⟨a, ha, hmap.1⟩, bs, ih.mpr ⟨as, has, hmap.2⟩, rfl⟩

theorem map_ok_injective {as bs : List α} (h : as.map (@Except.ok ε α) = bs.map .ok) :
    as = bs :=
  List.map_injective_iff.mpr (fun _ _ heq => Except.ok.inj heq) h

/-- Reading through a function is reading and then mapping it. -/
theorem readRange_map {get : Nat → Except ε α} {f : α → β} {count start : Nat} {items : List β} :
    readRange (fun i => get i >>= fun a => .ok (f a)) count start = .ok items ↔
      ∃ as, readRange get count start = .ok as ∧ items = as.map f := by
  rw [readRange_bind]
  refine exists_congr fun as => and_congr_right fun _ => ?_
  constructor
  · intro h
    exact map_ok_injective (by rw [← h, List.map_map]; rfl)
  · intro h
    subst h
    rw [List.map_map]
    rfl

/-- A counted loop whose body reads an item and then updates the state without
further reading is a reading of all items followed by a fold. -/
theorem forRange_pure (body : Nat → σ → Except ε σ) (get : Nat → Except ε α) (step : σ → α → σ)
    (hbody : ∀ i s, body i s = get i >>= fun x => .ok (step s x)) (count start : Nat) (s : σ) :
    forRange body count start s =
      readRange get count start >>= fun items => .ok (items.foldl step s) := by
  induction count generalizing start s with
  | zero => rfl
  | succ count ih =>
      simp only [forRange, readRange, hbody, bind_assoc, ok_bind, ih, List.foldl_cons]

/-- A fold that skips missing items is the fold over those that are there. -/
theorem foldl_filterMap_id (step : σ → α → σ) (items : List (Option α)) (s : σ) :
    items.foldl (fun s item => (item.map (step s)).getD s) s =
      (items.filterMap id).foldl step s := by
  induction items generalizing s with
  | nil => rfl
  | cons item items ih =>
      cases item with
      | none => simpa using ih s
      | some a => simpa using ih (step s a)

/-- `for i in start..start + count { … }` with a `return` inside: the body
gives `some` result to leave the loop and `none` to go on. -/
def findRange (body : Nat → Except ε (Option β)) : (count start : Nat) → Except ε (Option β)
  | 0, _ => .ok none
  | count + 1, i => do
      match ← body i with
      | some result => .ok (some result)
      | none => findRange body count (i + 1)

/-- A search without a result has asked every position. -/
theorem findRange_eq_none {body : Nat → Except ε (Option β)} {count start : Nat} :
    findRange body count start = .ok none ↔ ∀ i < count, body (start + i) = .ok none := by
  induction count generalizing start with
  | zero => simp [findRange]
  | succ count ih =>
      rw [findRange, bind_eq_ok]
      constructor
      · intro h i hi
        obtain ⟨found, hfirst, hrest⟩ := h
        cases found with
        | some result => cases hrest
        | none =>
            cases i with
            | zero => exact hfirst
            | succ i =>
                have := ih.mp hrest i (by omega)
                rwa [Nat.add_right_comm, Nat.add_assoc] at this
      · intro h
        refine ⟨none, h 0 (by omega), ih.mpr fun i hi => ?_⟩
        have := h (i + 1) (by omega)
        rwa [← Nat.add_assoc, Nat.add_right_comm] at this

/-- A search with a result has asked every position before the one it found. -/
theorem findRange_eq_some {body : Nat → Except ε (Option β)} {count start : Nat} {result : β} :
    findRange body count start = .ok (some result) ↔
      ∃ i < count, body (start + i) = .ok (some result) ∧
        ∀ j < i, body (start + j) = .ok none := by
  induction count generalizing start with
  | zero => simp [findRange]
  | succ count ih =>
      rw [findRange, bind_eq_ok]
      constructor
      · intro h
        obtain ⟨found, hfirst, hrest⟩ := h
        cases found with
        | some result' =>
            cases hrest
            exact ⟨0, by omega, hfirst, fun j hj => absurd hj (Nat.not_lt_zero j)⟩
        | none =>
            obtain ⟨i, hi, hresult, hbefore⟩ := ih.mp hrest
            refine ⟨i + 1, by omega, ?_, fun j hj => ?_⟩
            · rwa [← Nat.add_assoc, Nat.add_right_comm]
            · cases j with
              | zero => exact hfirst
              | succ j =>
                  have := hbefore j (by omega)
                  rwa [Nat.add_right_comm, Nat.add_assoc] at this
      · intro h
        obtain ⟨i, hi, hresult, hbefore⟩ := h
        cases i with
        | zero => exact ⟨some result, hresult, rfl⟩
        | succ i =>
            refine ⟨none, hbefore 0 (by omega), ih.mpr ⟨i, by omega, ?_, fun j hj => ?_⟩⟩
            · rwa [← Nat.add_assoc, Nat.add_right_comm] at hresult
            · have := hbefore (j + 1) (by omega)
              rwa [← Nat.add_assoc, Nat.add_right_comm] at this

/-- The same search over a list of items. -/
def findList (step : α → Except ε (Option β)) : List α → Except ε (Option β)
  | [] => .ok none
  | item :: items => do
      match ← step item with
      | some result => .ok (some result)
      | none => findList step items

/-- A result of a search comes from one of the items. -/
theorem exists_of_findList {step : α → Except ε (Option β)} {items : List α} {result : β}
    (h : findList step items = .ok (some result)) :
    ∃ (k : Nat) (item : α), items[k]? = some item ∧ step item = .ok (some result) := by
  induction items with
  | nil => cases h
  | cons item items ih =>
      obtain ⟨found, hfirst, hrest⟩ := bind_eq_ok.mp h
      cases found with
      | some found =>
          cases hrest
          exact ⟨0, item, rfl, hfirst⟩
      | none =>
          obtain ⟨k, item', hitem, hstep⟩ := ih hrest
          exact ⟨k + 1, item', hitem, hstep⟩

/-- A search that passes over all items but the last ends there. -/
theorem findList_concat {step : α → Except ε (Option β)} {items : List α} {last : α} {result : β}
    (h : ∀ item ∈ items, step item = .ok none) (hlast : step last = .ok (some result)) :
    findList step (items ++ [last]) = .ok (some result) := by
  induction items with
  | nil => simp [findList, hlast]
  | cons item items ih =>
      obtain ⟨hfirst, hrest⟩ := List.forall_mem_cons.mp h
      simp [findList, hfirst, ih hrest]

/-- A list of runs ends when every one of them does. -/
theorem mapM_eq_ok {f : α → Except ε β} {items : List α} {results : List β} :
    items.mapM f = .ok results ↔
      List.Forall₂ (fun item result => f item = .ok result) items results := by
  induction items generalizing results with
  | nil =>
      rw [List.forall₂_nil_left_iff, List.mapM_nil]
      exact ⟨fun h => (Except.ok.inj h).symm, fun h => congrArg Except.ok h.symm⟩
  | cons item items ih =>
      rw [List.mapM_cons, List.forall₂_cons_left_iff]
      constructor
      · intro h
        obtain ⟨result, hfirst, h⟩ := bind_eq_ok.mp h
        obtain ⟨rest, hrest, h⟩ := bind_eq_ok.mp h
        cases h
        exact ⟨result, rest, hfirst, ih.mp hrest, rfl⟩
      · intro h
        obtain ⟨result, rest, hfirst, hrest, rfl⟩ := h
        rw [hfirst, ok_bind, ih.mpr hrest]
        rfl

/-- Mapping succeeds on a list when it does on each item. -/
theorem exists_mapM {f : α → Except ε β} {items : List α}
    (h : ∀ item ∈ items, ∃ result, f item = .ok result) :
    ∃ results, items.mapM f = .ok results := by
  induction items with
  | nil => exact ⟨[], rfl⟩
  | cons item items ih =>
      obtain ⟨hfirst, hrest⟩ := List.forall_mem_cons.mp h
      rw [List.mapM_cons]
      exact exists_ok_bind hfirst fun result _ => exists_ok_bind (ih hrest) fun rest _ => ⟨_, rfl⟩

/-- Everything on the right has a partner on the left. -/
theorem exists_of_mem_right {R : α → β → Prop} {as : List α} {bs : List β}
    (h : List.Forall₂ R as bs) {b : β} (hb : b ∈ bs) : ∃ a ∈ as, R a b := by
  induction h with
  | nil => cases hb
  | cons hfirst _ ih =>
      rcases List.mem_cons.mp hb with rfl | hb
      · exact ⟨_, List.mem_cons_self, hfirst⟩
      · obtain ⟨a, ha, hab⟩ := ih hb
        exact ⟨a, List.mem_cons_of_mem _ ha, hab⟩

/-- A counted search whose body at `start + i` is one step on item `i` is the
search for that step over the items. -/
theorem findRange_eq_findList {body : Nat → Except ε (Option β)}
    {step : α → Except ε (Option β)} (items : List α) (start : Nat)
    (h : ∀ (i : Nat) (hi : i < items.length), body (start + i) = step items[i]) :
    findRange body items.length start = findList step items := by
  induction items generalizing start with
  | nil => rfl
  | cons item items ih =>
      have hhead : body start = step item := h 0 (by simp)
      have htail := ih (start + 1) (fun i hi => by
        have := h (i + 1) (by simpa using hi)
        simpa [Nat.add_assoc, Nat.add_comm 1 i] using this)
      simp only [List.length_cons, findRange, findList, hhead, htail]

end Loops

end Octets
