import CkbVote.Octets

/-!
# Molecule layouts: verification and unchecked reading

Molecule stores a table or a vector of variable-size items behind a header of
little-endian words: the total size, then one offset for each item.  The
generated code has two sides, and they compute the same quantities from
different bytes.

* The **verifiers** (`verifyDynVec`, `verifyTable`, `verifyFixVec`, …) check
  the header words against the length of the slice.  Every read stands behind
  a length check, so they read with the total `numberAt` and `slice`.
* The **unchecked readers** (`itemCount`, `DynVec.getUnchecked`,
  `Table.field`, …) recompute everything from the header words and index the
  slice without a check of their own.

`OffsetTable` is what the verifiers establish, and every theorem about the
readers is stated over it: a verified slice is cut into its `parts`, and the
readers return exactly these.
-/

namespace Molecule

open Octets

/-! ## Verification -/

inductive VerificationError
  | totalSizeNotMatch (name : String) (expected actual : Nat)
  | headerIsBroken (name : String) (expected actual : Nat)
  | offsetsNotMatch (name : String)
  | fieldCountNotMatch (name : String) (expected actual : Nat)
deriving DecidableEq, Repr

abbrev VerificationResult := Except VerificationError Unit

/-- The word at byte `i`, read where a length check has been made. -/
def numberAt (s : Bytes) (i : Nat) : Nat := leNat (slice s i (i + 4))

/-- The number of offsets that fit before the first offset's own target. -/
def headerCount (s : Bytes) : Nat := numberAt s 4 / 4 - 1

/-- `offsets[k]` of a verifier: the `k`-th header word, and the total size
pushed behind the last one. -/
def offsetAt (s : Bytes) (k : Nat) : Nat :=
  if k < headerCount s then numberAt s (4 * (k + 1)) else numberAt s 0

/-- `&slice[offsets[k]..offsets[k + 1]]`. -/
def part (s : Bytes) (k : Nat) : Bytes := slice s (offsetAt s k) (offsetAt s (k + 1))

def parts (s : Bytes) : List Bytes := (List.range (headerCount s)).map (part s)

/-- `offsets.windows(2).any(|i| i[0] > i[1])`. -/
def offsetsDecrease (s : Bytes) : Bool :=
  (List.range (headerCount s)).any fun k => offsetAt s (k + 1) < offsetAt s k

/-- `for pair in offsets.windows(2) { verify(&slice[start..end])?; }`. -/
def verifyItems (item : Bytes → VerificationResult) : List Bytes → VerificationResult
  | [] => .ok ()
  | p :: ps => do
      item p
      verifyItems item ps

/-- `verify` of a vector with items of variable size. -/
def verifyDynVec (name : String) (item : Bytes → VerificationResult) (s : Bytes) :
    VerificationResult :=
  if s.length < 4 then .error (.headerIsBroken name 4 s.length)
  else if s.length ≠ numberAt s 0 then
    .error (.totalSizeNotMatch name (numberAt s 0) s.length)
  else if s.length = 4 then .ok ()
  else if s.length < 8 then .error (.totalSizeNotMatch name 8 s.length)
  else if numberAt s 4 % 4 ≠ 0 ∨ numberAt s 4 < 8 then .error (.offsetsNotMatch name)
  else if s.length < numberAt s 4 then
    .error (.headerIsBroken name (numberAt s 4) s.length)
  else if offsetsDecrease s then .error (.offsetsNotMatch name)
  else verifyItems item (parts s)

/-- The field checks of a table, from field `k` on. -/
def verifyFields (s : Bytes) : List (Bytes → VerificationResult) → Nat → VerificationResult
  | [], _ => .ok ()
  | field :: fields, k => do
      field (part s k)
      verifyFields s fields (k + 1)

/-- `verify` of a table; `compatible` admits fields behind the declared ones. -/
def verifyTable (name : String) (fields : List (Bytes → VerificationResult))
    (compatible : Bool) (s : Bytes) : VerificationResult :=
  if s.length < 4 then .error (.headerIsBroken name 4 s.length)
  else if s.length ≠ numberAt s 0 then
    .error (.totalSizeNotMatch name (numberAt s 0) s.length)
  else if s.length < 8 then .error (.headerIsBroken name 8 s.length)
  else if numberAt s 4 % 4 ≠ 0 ∨ numberAt s 4 < 8 then .error (.offsetsNotMatch name)
  else if s.length < numberAt s 4 then
    .error (.headerIsBroken name (numberAt s 4) s.length)
  else if headerCount s < fields.length then
    .error (.fieldCountNotMatch name fields.length (headerCount s))
  else if !compatible && headerCount s > fields.length then
    .error (.fieldCountNotMatch name fields.length (headerCount s))
  else if offsetsDecrease s then .error (.offsetsNotMatch name)
  else verifyFields s fields 0

/-- `verify` of a vector with items of `itemSize` bytes. -/
def verifyFixVec (name : String) (itemSize : Nat) (s : Bytes) : VerificationResult :=
  if s.length < 4 then .error (.headerIsBroken name 4 s.length)
  else if numberAt s 0 = 0 then
    if s.length ≠ 4 then .error (.totalSizeNotMatch name 4 s.length) else .ok ()
  else if s.length ≠ 4 + itemSize * numberAt s 0 then
    .error (.totalSizeNotMatch name (4 + itemSize * numberAt s 0) s.length)
  else .ok ()

/-- `verify` of an array or a struct of `size` bytes. -/
def verifyFixed (name : String) (size : Nat) (s : Bytes) : VerificationResult :=
  if s.length ≠ size then .error (.totalSizeNotMatch name size s.length) else .ok ()

/-- `verify` of an option. -/
def verifyOption (item : Bytes → VerificationResult) (s : Bytes) : VerificationResult :=
  if s = [] then .ok () else item s

/-! ## What the verifiers establish -/

/-- A header of words that cuts the slice into consecutive parts. -/
structure OffsetTable (s : Bytes) : Prop where
  total : s.length = numberAt s 0
  aligned : numberAt s 4 % 4 = 0
  first_ge : 8 ≤ numberAt s 4
  first_le : numberAt s 4 ≤ s.length
  sorted : ∀ k < headerCount s, offsetAt s k ≤ offsetAt s (k + 1)

/-- The vector of variable-size items that holds none. -/
def IsEmptyVec (s : Bytes) : Prop := s.length = 4 ∧ numberAt s 0 = 4

/-- Offsets do not decrease exactly when each is at most the next. -/
theorem offsetsDecrease_eq_false {s : Bytes} :
    offsetsDecrease s = false ↔ ∀ k < headerCount s, offsetAt s k ≤ offsetAt s (k + 1) := by
  simp [offsetsDecrease]

theorem verifyItems_eq_ok {item : Bytes → VerificationResult} {ps : List Bytes} :
    verifyItems item ps = .ok () ↔ ∀ p ∈ ps, item p = .ok () := by
  induction ps with
  | nil => simp [verifyItems]
  | cons p ps ih => simp [verifyItems, bind_unit_eq_ok, ih]

/-- A dynamic vector verifies exactly when it is the empty one, or has an offset
table and items that verify. -/
theorem verifyDynVec_eq_ok {name : String} {item : Bytes → VerificationResult} {s : Bytes} :
    verifyDynVec name item s = .ok () ↔
      IsEmptyVec s ∨ (OffsetTable s ∧ ∀ p ∈ parts s, item p = .ok ()) := by
  constructor
  · intro h
    unfold verifyDynVec at h
    split_ifs at h with h1 h2 h3 h4 h5 h6 h7
    · exact Or.inl ⟨h3, by omega⟩
    · have hsorted := offsetsDecrease_eq_false.mp (by simpa using h7)
      exact Or.inr ⟨⟨by omega, by omega, by omega, by omega, hsorted⟩, verifyItems_eq_ok.mp h⟩
  · intro h
    rcases h with ⟨hlen, htotal⟩ | ⟨ht, hitems⟩
    · unfold verifyDynVec
      rw [if_neg (by omega), if_neg (by omega), if_pos hlen]
    · have htotal := ht.total
      have haligned := ht.aligned
      have hge := ht.first_ge
      have hle := ht.first_le
      unfold verifyDynVec
      rw [if_neg (by omega), if_neg (by omega), if_neg (by omega), if_neg (by omega),
        if_neg (by omega), if_neg (by omega),
        if_neg (by simp [offsetsDecrease_eq_false.mpr ht.sorted])]
      exact verifyItems_eq_ok.mpr hitems

/-- A table verifies exactly when it has an offset table with enough fields, not
too many unless `compatible` is set, and its fields verify. -/
theorem verifyTable_eq_ok {name : String} {fields : List (Bytes → VerificationResult)}
    {compatible : Bool} {s : Bytes} :
    verifyTable name fields compatible s = .ok () ↔
      OffsetTable s ∧ fields.length ≤ headerCount s ∧
        (compatible = false → headerCount s = fields.length) ∧
        verifyFields s fields 0 = .ok () := by
  constructor
  · intro h
    unfold verifyTable at h
    split_ifs at h with h1 h2 h3 h4 h5 h6 h7 h8
    have hsorted := offsetsDecrease_eq_false.mp (by simpa using h8)
    refine ⟨⟨by omega, by omega, by omega, by omega, hsorted⟩, by omega, ?_, h⟩
    intro h
    subst h
    simp at h7
    omega
  · intro h
    obtain ⟨ht, hcount, hstrict, hfields⟩ := h
    have htotal := ht.total
    have haligned := ht.aligned
    have hge := ht.first_ge
    have hle := ht.first_le
    have hextra : ¬ (!compatible && decide (headerCount s > fields.length)) = true := by
      cases compatible with
      | false => simp [hstrict rfl]
      | true => simp
    unfold verifyTable
    rw [if_neg (by omega), if_neg (by omega), if_neg (by omega), if_neg (by omega),
      if_neg (by omega), if_neg (by omega), if_neg hextra,
      if_neg (by simp [offsetsDecrease_eq_false.mpr ht.sorted])]
    exact hfields

/-- Fields verify each with its own check. -/
theorem verifyFields_eq_ok {s : Bytes} {fields : List (Bytes → VerificationResult)} {k : Nat} :
    verifyFields s fields k = .ok () ↔
      ∀ (i : Nat) (hi : i < fields.length), fields[i] (part s (k + i)) = .ok () := by
  induction fields generalizing k with
  | nil => simp [verifyFields]
  | cons field fields ih =>
      rw [verifyFields, bind_unit_eq_ok, ih]
      constructor
      · intro h i hi
        obtain ⟨hfield, hrest⟩ := h
        cases i with
        | zero => exact hfield
        | succ i =>
            have := hrest i (by simpa using hi)
            rwa [Nat.add_right_comm, Nat.add_assoc] at this
      · intro h
        refine ⟨h 0 (by simp), fun i hi => ?_⟩
        have := h (i + 1) (by simpa using hi)
        rwa [← Nat.add_assoc, Nat.add_right_comm] at this

/-- A fixed vector verifies exactly when its length is that of its items. -/
theorem verifyFixVec_eq_ok {name : String} {itemSize : Nat} {s : Bytes} :
    verifyFixVec name itemSize s = .ok () ↔ s.length = 4 + itemSize * numberAt s 0 := by
  constructor
  · intro h
    unfold verifyFixVec at h
    split_ifs at h with h1 h2 h3 h4
    · simp [h2]; omega
    · omega
  · intro h
    unfold verifyFixVec
    rw [if_neg (by omega)]
    split_ifs with h2 h3 h4
    · simp [h2] at h; omega
    · rfl
    · omega
    · rfl

theorem verifyFixed_eq_ok {name : String} {size : Nat} {s : Bytes} :
    verifyFixed name size s = .ok () ↔ s.length = size := by
  unfold verifyFixed
  split_ifs with h
  · simp [h]
  · simpa using h

/-- An option verifies when it is empty or its item verifies. -/
theorem verifyOption_eq_ok {item : Bytes → VerificationResult} {s : Bytes} :
    verifyOption item s = .ok () ↔ s = [] ∨ item s = .ok () := by
  unfold verifyOption
  split_ifs with h <;> simp [h]

/-- A table that passes without extra fields passes with the flag that admits
them, when each field does. -/
theorem verifyTable_compatible {name : String}
    {strict loose : List (Bytes → VerificationResult)} (hlen : strict.length = loose.length)
    (hfields : ∀ s, verifyFields s strict 0 = .ok () → verifyFields s loose 0 = .ok ())
    {s : Bytes} (h : verifyTable name strict false s = .ok ()) :
    verifyTable name loose true s = .ok () := by
  obtain ⟨ht, hcount, -, hok⟩ := verifyTable_eq_ok.mp h
  exact verifyTable_eq_ok.mpr ⟨ht, hlen ▸ hcount, by simp, hfields s hok⟩

/-! ## The shape of a verified slice -/

theorem numberAt_lt (s : Bytes) (i : Nat) : numberAt s i < 2 ^ 32 := by
  have hlen : (slice s i (i + 4)).length ≤ 4 := by
    rw [slice, List.length_take]
    omega
  calc numberAt s i < 256 ^ (slice s i (i + 4)).length := leNat_lt _
    _ ≤ 256 ^ 4 := Nat.pow_le_pow_right (by decide) hlen
    _ = 2 ^ 32 := by decide

@[simp] theorem length_parts (s : Bytes) : (parts s).length = headerCount s := by
  simp [parts]

@[simp] theorem getElem_parts {s : Bytes} {k : Nat} (h : k < (parts s).length) :
    (parts s)[k] = part s k := by
  simp [parts]

/-- The parts are those between two consecutive offsets. -/
theorem mem_parts {s p : Bytes} : p ∈ parts s ↔ ∃ k < headerCount s, part s k = p := by
  simp [parts]

namespace OffsetTable

variable {s : Bytes}

/-- The header fills the bytes before the first part. -/
theorem header_eq (ht : OffsetTable s) : 4 * (headerCount s + 1) = numberAt s 4 := by
  have haligned := ht.aligned
  have hge := ht.first_ge
  unfold headerCount
  omega

/-- The header lies within the string. -/
theorem header_le (ht : OffsetTable s) : 4 * (headerCount s + 1) ≤ s.length :=
  ht.header_eq ▸ ht.first_le

theorem headerCount_pos (ht : OffsetTable s) : 0 < headerCount s := by
  have heq := ht.header_eq
  have hge := ht.first_ge
  omega

theorem eight_le (ht : OffsetTable s) : 8 ≤ s.length :=
  Nat.le_trans ht.first_ge ht.first_le

/-- The offset after the last one is the length. -/
theorem offsetAt_headerCount (ht : OffsetTable s) : offsetAt s (headerCount s) = s.length := by
  rw [offsetAt, if_neg (Nat.lt_irrefl _), ht.total]

/-- The first offset is the end of the header. -/
theorem offsetAt_zero (ht : OffsetTable s) : offsetAt s 0 = 4 * (headerCount s + 1) := by
  rw [offsetAt, if_pos ht.headerCount_pos, ht.header_eq]

/-- The offsets never decrease. -/
theorem offsetAt_mono (ht : OffsetTable s) {j k : Nat} (hjk : j ≤ k)
    (hk : k ≤ headerCount s) : offsetAt s j ≤ offsetAt s k := by
  induction hjk with
  | refl => exact Nat.le_refl _
  | step hjk ih => exact Nat.le_trans (ih (by omega)) (ht.sorted _ (by omega))

/-- No offset exceeds the length. -/
theorem offsetAt_le (ht : OffsetTable s) {k : Nat} (hk : k ≤ headerCount s) :
    offsetAt s k ≤ s.length :=
  ht.offsetAt_headerCount ▸ ht.offsetAt_mono hk (Nat.le_refl _)

/-- A part is as long as its offsets are apart. -/
theorem length_part (ht : OffsetTable s) {k : Nat} (hk : k < headerCount s) :
    (part s k).length = offsetAt s (k + 1) - offsetAt s k :=
  length_slice (ht.offsetAt_le (by omega))

/-- The header and one part fit into the slice. -/
theorem header_add_part_le (ht : OffsetTable s) {k : Nat} (hk : k < headerCount s) :
    4 * (headerCount s + 1) + (part s k).length ≤ s.length := by
  have hzero := ht.offsetAt_zero
  have hfirst := ht.offsetAt_mono (Nat.zero_le k) (Nat.le_of_lt hk)
  have hsorted := ht.sorted k hk
  have hend := ht.offsetAt_le (k := k + 1) hk
  rw [ht.length_part hk]
  omega

/-- Two different parts fit into the slice next to each other. -/
theorem part_add_part_le (ht : OffsetTable s) {j k : Nat} (hjk : j < k) (hk : k < headerCount s) :
    (part s j).length + (part s k).length ≤ s.length := by
  have hmono := ht.offsetAt_mono (j := j + 1) (k := k) hjk (Nat.le_of_lt hk)
  have hj := ht.sorted j (Nat.lt_trans hjk hk)
  have hsorted := ht.sorted k hk
  have hend := ht.offsetAt_le (k := k + 1) hk
  rw [ht.length_part hk, ht.length_part (Nat.lt_trans hjk hk)]
  omega

/-- The parts up to `k` cover the slice from the first offset to offset `k`. -/
theorem flatten_take_parts (ht : OffsetTable s) {k : Nat} (hk : k ≤ headerCount s) :
    ((parts s).take k).flatten = slice s (offsetAt s 0) (offsetAt s k) := by
  induction k with
  | zero => simp [slice]
  | succ k ih =>
      have hlt : k < (parts s).length := by rw [length_parts]; omega
      rw [List.take_succ_eq_append_getElem hlt, List.flatten_append, ih (by omega),
        getElem_parts hlt]
      simpa [part] using slice_append_slice (ht.offsetAt_mono (Nat.zero_le k) (by omega))
        (ht.sorted k (by omega))

end OffsetTable

/-! ## Unchecked reading -/

/-- `unpack_number(&slice[i..])`. -/
def unpackNumber (s : Bytes) (i : Nat) : Run Nat :=
  if i + 4 ≤ s.length then .ok (numberAt s i) else .error .sliceIndex

theorem unpackNumber_ok {s : Bytes} {i : Nat} (h : i + 4 ≤ s.length) :
    unpackNumber s i = .ok (numberAt s i) := if_pos h

/-- Subtraction of `usize` values without overflow checks. -/
def wrappingSub (a b : Nat) : Nat := (a + 2 ^ 64 - b) % 2 ^ 64

/-- `item_count` of a vector with variable-size items, `field_count` of a
table.  The first offset is not known to be at least four here, so the
subtraction may wrap. -/
def itemCount (s : Bytes) : Run Nat := do
  let totalSize ← unpackNumber s 0
  if totalSize = 4 then .ok 0
  else
    let first ← unpackNumber s 4
    .ok (wrappingSub (first / 4) 1)

/-- `get_unchecked` of a vector with variable-size items. -/
def DynVec.getUnchecked (s : Bytes) (idx : Nat) : Run Bytes := do
  let start ← unpackNumber s (4 * (1 + idx))
  if idx = wrappingSub (← itemCount s) 1 then readSlice s start s.length
  else
    let stop ← unpackNumber s (4 * (1 + idx) + 4)
    readSlice s start stop

/-- `get`: nothing past the length, an unchecked read before it. -/
def DynVec.get (s : Bytes) (idx : Nat) : Run (Option Bytes) := do
  if idx ≥ (← itemCount s) then .ok none
  else
    let item ← DynVec.getUnchecked s idx
    .ok (some item)

/-- The accessor of field `i` of a table declared with `fieldCount` fields.
The last declared field ends at the end of the slice unless extra fields
follow it. -/
def Table.field (fieldCount : Nat) (s : Bytes) (i : Nat) : Run Bytes := do
  let start ← unpackNumber s (4 * (i + 1))
  if i + 1 = fieldCount then
    if (← itemCount s) ≠ fieldCount then
      let stop ← unpackNumber s (4 * (i + 2))
      readSlice s start stop
    else readSlice s start s.length
  else
    let stop ← unpackNumber s (4 * (i + 2))
    readSlice s start stop

def FixVec.itemCount (s : Bytes) : Run Nat := unpackNumber s 0

def FixVec.getUnchecked (itemSize : Nat) (s : Bytes) (idx : Nat) : Run Bytes :=
  readSlice s (4 + itemSize * idx) (4 + itemSize * idx + itemSize)

def FixVec.get (itemSize : Nat) (s : Bytes) (idx : Nat) : Run (Option Bytes) := do
  if idx ≥ (← FixVec.itemCount s) then .ok none
  else
    let item ← FixVec.getUnchecked itemSize s idx
    .ok (some item)

/-- `raw_data` of a byte vector. -/
def rawData (s : Bytes) : Run Bytes := readSlice s 4 s.length

/-- `to_opt` of an option. -/
def toOpt (s : Bytes) : Option Bytes := if s = [] then none else some s

/-! ## Reading a verified slice -/

namespace OffsetTable

variable {s : Bytes}

/-- An offset is read where the header keeps it. -/
theorem unpackNumber_offset (ht : OffsetTable s) {k : Nat} (hk : k < headerCount s) :
    unpackNumber s (4 * (k + 1)) = .ok (offsetAt s k) := by
  have hle := ht.header_le
  rw [unpackNumber_ok (by omega), offsetAt, if_pos hk]

/-- Behind an offset table, `item_count` counts the offsets. -/
theorem itemCount_eq (ht : OffsetTable s) : itemCount s = .ok (headerCount s) := by
  have hlen := ht.eight_le
  have htotal := ht.total
  have hge := ht.first_ge
  have hlt := numberAt_lt s 4
  have hwrap : wrappingSub (numberAt s 4 / 4) 1 = headerCount s := by
    unfold wrappingSub headerCount
    omega
  rw [itemCount, unpackNumber_ok (by omega), ok_bind, if_neg (by omega),
    unpackNumber_ok (by omega), ok_bind, hwrap]

theorem wrappingSub_headerCount (ht : OffsetTable s) :
    wrappingSub (headerCount s) 1 = headerCount s - 1 := by
  have hpos := ht.headerCount_pos
  have hlt := numberAt_lt s 4
  have hheader := ht.header_eq
  unfold wrappingSub
  omega

/-- Slicing between two consecutive offsets reads a part. -/
theorem readSlice_part (ht : OffsetTable s) {k : Nat} (hk : k < headerCount s) :
    readSlice s (offsetAt s k) (offsetAt s (k + 1)) = .ok (part s k) :=
  readSlice_ok (ht.sorted k hk) (ht.offsetAt_le (by omega))

/-- Slicing from the last offset to the end reads the last part. -/
theorem readSlice_last (ht : OffsetTable s) {k : Nat} (hk : k + 1 = headerCount s) :
    readSlice s (offsetAt s k) s.length = .ok (part s k) := by
  have hend : offsetAt s (k + 1) = s.length := hk ▸ ht.offsetAt_headerCount
  simpa [hend] using ht.readSlice_part (k := k) (by omega)

/-- `get_unchecked` reads the part at a valid index. -/
theorem getUnchecked_eq (ht : OffsetTable s) {k : Nat} (hk : k < headerCount s) :
    DynVec.getUnchecked s k = .ok (part s k) := by
  rw [DynVec.getUnchecked, Nat.add_comm 1 k, ht.unpackNumber_offset hk, ok_bind,
    ht.itemCount_eq, ok_bind, ht.wrappingSub_headerCount]
  by_cases hlast : k = headerCount s - 1
  · rw [if_pos hlast, ht.readSlice_last (by omega)]
  · have hnext : 4 * (k + 1) + 4 = 4 * (k + 1 + 1) := by omega
    rw [if_neg hlast, hnext, ht.unpackNumber_offset (by omega), ok_bind, ht.readSlice_part hk]

/-- The getter of a field reads its part. -/
theorem field_eq (ht : OffsetTable s) {fieldCount i : Nat} (hcount : fieldCount ≤ headerCount s)
    (hi : i < fieldCount) : Table.field fieldCount s i = .ok (part s i) := by
  rw [Table.field, ht.unpackNumber_offset (by omega), ok_bind, ht.itemCount_eq, ok_bind]
  by_cases hlast : i + 1 = fieldCount
  · rw [if_pos hlast]
    by_cases hextra : headerCount s = fieldCount
    · rw [if_neg (by omega), ht.readSlice_last (by omega)]
    · rw [if_pos hextra, ht.unpackNumber_offset (k := i + 1) (by omega), ok_bind,
        ht.readSlice_part (by omega)]
  · rw [if_neg hlast, ht.unpackNumber_offset (k := i + 1) (by omega), ok_bind,
      ht.readSlice_part (by omega)]

end OffsetTable

/-- The accessor of a declared field of a verified table returns a slice that
passed the check of that field. -/
theorem Table.field_of_verify {name : String} {fields : List (Bytes → VerificationResult)}
    {compatible : Bool} {s : Bytes} (h : verifyTable name fields compatible s = .ok ()) (i : Nat)
    (hi : i < fields.length) :
    Table.field fields.length s i = .ok (part s i) ∧ fields[i] (part s i) = .ok () := by
  obtain ⟨ht, hcount, -, hfields⟩ := verifyTable_eq_ok.mp h
  have hfield := verifyFields_eq_ok.mp hfields i hi
  rw [Nat.zero_add] at hfield
  exact ⟨ht.field_eq hcount hi, hfield⟩

/-- What a vector verifier establishes before it looks at the items. -/
def DynVec.Layout (s : Bytes) : Prop := IsEmptyVec s ∨ OffsetTable s

/-- The items of a vector with variable-size items. -/
def DynVec.items (s : Bytes) : List Bytes := if s.length = 4 then [] else parts s

namespace DynVec

variable {s : Bytes}

theorem items_empty (h : IsEmptyVec s) : items s = [] := if_pos h.1

/-- The items behind an offset table are its parts. -/
theorem items_table (ht : OffsetTable s) : items s = parts s := by
  have hlen := ht.eight_le
  exact if_neg (by omega)

/-- **A dynamic vector verifies** exactly when its layout is right and its items
verify. -/
theorem verify_eq_ok {name : String} {item : Bytes → VerificationResult} :
    verifyDynVec name item s = .ok () ↔ Layout s ∧ ∀ p ∈ items s, item p = .ok () := by
  rw [verifyDynVec_eq_ok]
  constructor
  · intro h
    rcases h with hempty | ⟨ht, hitems⟩
    · exact ⟨Or.inl hempty, by simp [items_empty hempty]⟩
    · exact ⟨Or.inr ht, by simpa [items_table ht] using hitems⟩
  · intro h
    rcases h with ⟨hempty | ht, hitems⟩
    · exact Or.inl hempty
    · exact Or.inr ⟨ht, by simpa [items_table ht] using hitems⟩

/-- On a vector that is laid out right, `len` counts the items. -/
theorem itemCount_eq (h : Layout s) : itemCount s = .ok (items s).length := by
  rcases h with hempty | ht
  · rw [items_empty hempty, itemCount, unpackNumber_ok (by have := hempty.1; omega), ok_bind,
      if_pos hempty.2]
    rfl
  · rw [items_table ht, ht.itemCount_eq, length_parts]

/-- `get_unchecked` reads the item at a valid index. -/
theorem getUnchecked_eq (h : Layout s) {k : Nat} (hk : k < (items s).length) :
    getUnchecked s k = .ok (items s)[k] := by
  rcases h with hempty | ht
  · simp [items_empty hempty] at hk
  · simp only [items_table ht] at hk ⊢
    rw [ht.getUnchecked_eq (by simpa using hk), getElem_parts]

/-- Reading the items one by one. -/
theorem readRange_getUnchecked (h : Layout s) :
    readRange (getUnchecked s) (items s).length 0 = .ok (items s) := by
  rw [readRange_eq_ok]
  refine ⟨rfl, fun k hk => ?_⟩
  rw [Nat.zero_add, getUnchecked_eq h hk]

/-- `get` reads the item at every index, and none past the end. -/
theorem get_eq (h : Layout s) (k : Nat) : get s k = .ok (items s)[k]? := by
  rw [get, itemCount_eq h, ok_bind]
  by_cases hk : k < (items s).length
  · rw [if_neg (by omega), getUnchecked_eq h hk, ok_bind, List.getElem?_eq_getElem hk]
  · rw [if_pos (by omega), List.getElem?_eq_none (by omega)]

/-- An item is no longer than the vector. -/
theorem length_le_of_mem_items (h : Layout s) {item : Bytes} (hitem : item ∈ items s) :
    item.length ≤ s.length := by
  rcases h with hempty | ht
  · simp [items_empty hempty] at hitem
  · rw [items_table ht] at hitem
    obtain ⟨k, hk, rfl⟩ := mem_parts.mp hitem
    have hle := ht.header_add_part_le hk
    omega

/-- Indexing the vector gives the slices between consecutive positions, the
first of them at the first offset and the last ending where the vector ends.  A
vector without items is its own size word. -/
structure ReadsBetween (s : Bytes) (count : Nat) (bound : Nat → Nat) : Prop where
  itemCount_eq : itemCount s = .ok count
  getUnchecked_eq : ∀ k, k < count →
    getUnchecked s k = .ok (slice s (bound k) (bound (k + 1)))
  get_eq : ∀ k, get s k =
    .ok (if k < count then some (slice s (bound k) (bound (k + 1))) else none)
  sorted : ∀ k, k < count → bound k ≤ bound (k + 1)
  first : 0 < count → bound 0 = numberAt s 4
  last : bound count = s.length
  empty : count = 0 → s.length = 4

/-- All reads of a vector stay between its offsets. -/
theorem readsBetween (h : Layout s) : ReadsBetween s (items s).length (offsetAt s) := by
  have hunchecked : ∀ k, k < (items s).length →
      getUnchecked s k = .ok (slice s (offsetAt s k) (offsetAt s (k + 1))) := by
    intro k hk
    rcases h with hempty | ht
    · simp [items_empty hempty] at hk
    · rw [items_table ht, length_parts] at hk
      exact ht.getUnchecked_eq hk
  refine ⟨itemCount_eq h, hunchecked, fun k => ?_, fun k hk => ?_, fun hpos => ?_, ?_,
    fun hzero => ?_⟩
  · rw [get, itemCount_eq h, ok_bind]
    split_ifs with hge hlt hlt
    · omega
    · rfl
    · rw [hunchecked k hlt, ok_bind]
    · omega
  · rcases h with hempty | ht
    · simp [items_empty hempty] at hk
    · exact ht.sorted k (by simpa [items_table ht] using hk)
  · rcases h with hempty | ht
    · simp [items_empty hempty] at hpos
    · rw [ht.offsetAt_zero, ht.header_eq]
  · rcases h with hempty | ht
    · -- Without an offset the word behind the size reads as zero.
      have hcount : headerCount s = 0 := by
        simp [headerCount, numberAt, slice, List.drop_eq_nil_of_le, hempty.1, leNat]
      rw [items_empty hempty, offsetAt, if_neg (by simp [hcount]), hempty.1, hempty.2]
    · rw [items_table ht, length_parts, ht.offsetAt_headerCount]
  · rcases h with hempty | ht
    · exact hempty.1
    · have hpos := ht.headerCount_pos
      rw [items_table ht, length_parts] at hzero
      omega

end DynVec

namespace FixVec

variable {s : Bytes} {itemSize : Nat}

/-- The items of a vector with items of `itemSize` bytes. -/
def items (itemSize : Nat) (s : Bytes) : List Bytes :=
  (List.range (numberAt s 0)).map fun k => slice s (4 + itemSize * k) (4 + itemSize * k + itemSize)

@[simp] theorem length_items : (items itemSize s).length = numberAt s 0 := by simp [items]

/-- The count in front is the number of items. -/
theorem itemCount_eq (h : s.length = 4 + itemSize * numberAt s 0) :
    itemCount s = .ok (items itemSize s).length := by
  rw [length_items]
  exact unpackNumber_ok (by omega)

/-- An item at a valid index ends within the vector. -/
theorem item_end_le (h : s.length = 4 + itemSize * numberAt s 0) {k : Nat}
    (hk : k < numberAt s 0) : 4 + itemSize * k + itemSize ≤ s.length := by
  have hmul : itemSize * (k + 1) ≤ itemSize * numberAt s 0 := Nat.mul_le_mul_left _ hk
  rw [Nat.mul_succ] at hmul
  omega

/-- `get_unchecked` reads the item at a valid index. -/
theorem getUnchecked_eq (h : s.length = 4 + itemSize * numberAt s 0) {k : Nat}
    (hk : k < (items itemSize s).length) :
    getUnchecked itemSize s k = .ok (items itemSize s)[k] := by
  have hend := item_end_le h (by simpa using hk)
  rw [getUnchecked, readSlice_ok (by omega) hend]
  simp [items]

/-- `get` reads the item at every index, and none past the end. -/
theorem get_eq (h : s.length = 4 + itemSize * numberAt s 0) (k : Nat) :
    get itemSize s k = .ok (items itemSize s)[k]? := by
  rw [get, itemCount_eq h, ok_bind]
  by_cases hk : k < (items itemSize s).length
  · rw [if_neg (by omega), getUnchecked_eq h hk, ok_bind, List.getElem?_eq_getElem hk]
  · rw [if_pos (by omega), List.getElem?_eq_none (by omega)]

theorem length_of_mem_items (h : s.length = 4 + itemSize * numberAt s 0) {item : Bytes}
    (hitem : item ∈ items itemSize s) : item.length = itemSize := by
  obtain ⟨k, hk, rfl⟩ := List.mem_map.mp hitem
  have hend := item_end_le h (List.mem_range.mp hk)
  rw [length_slice hend]
  omega

end FixVec

theorem rawData_ok {s : Bytes} (h : 4 ≤ s.length) : rawData s = .ok (slice s 4 s.length) :=
  readSlice_ok h (Nat.le_refl _)

end Molecule
