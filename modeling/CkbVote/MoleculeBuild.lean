import CkbVote.Molecule

/-!
# Molecule builders and the round trip

`build` writes a table, or a vector with items of variable size, from the
slices of its fields; `buildFixVec` writes a vector with items of one size.
Sizes and offsets are cast to 32 bits, so a result of `2 ^ 32` bytes or more
carries truncated words.  Below that bound the header is an `OffsetTable` and
its parts are the fields (`build_layout`, `parts_build`), and every slice with
an offset table is the build of its parts (`build_parts`): the encoding is
canonical.
-/

namespace Molecule

open Octets

/-- The running offsets a builder collects, from `start` on. -/
def offsetWords (start : Nat) : List Bytes → List Nat
  | [] => []
  | item :: items => start :: offsetWords (start + item.length) items

/-- `build` of a table from the slices of its fields, and of a vector from the
slices of its items. -/
def build (items : List Bytes) : Bytes :=
  let start := 4 * (items.length + 1)
  leBytes 4 (start + items.flatten.length) ++
    (offsetWords start items).flatMap (leBytes 4) ++ items.flatten

/-- `build` of a vector with items of one size. -/
def buildFixVec (items : List Bytes) : Bytes := leBytes 4 items.length ++ items.flatten

/-- `build` of a byte vector. -/
def buildBytes (content : Bytes) : Bytes := leBytes 4 content.length ++ content

/-! ## Header words -/

@[simp] theorem length_offsetWords (start : Nat) (items : List Bytes) :
    (offsetWords start items).length = items.length := by
  induction items generalizing start with
  | nil => rfl
  | cons item items ih => simp [offsetWords, ih]

/-- An offset is the end of the items before it. -/
theorem getElem_offsetWords (start : Nat) (items : List Bytes) {k : Nat}
    (h : k < (offsetWords start items).length) :
    (offsetWords start items)[k] = start + (items.take k).flatten.length := by
  induction items generalizing start k with
  | nil => simp [offsetWords] at h
  | cons item items ih =>
      cases k with
      | zero => simp [offsetWords]
      | succ k => simp [offsetWords, ih, Nat.add_assoc]

theorem length_flatMap_leBytes (words : List Nat) :
    (words.flatMap (leBytes 4)).length = 4 * words.length := by
  induction words with
  | nil => rfl
  | cons word words ih => simp [ih]; omega

/-- A concatenation, split around its item `k`. -/
theorem flatten_split {α : Type} {items : List (List α)} {k : Nat} (hk : k < items.length) :
    items.flatten = (items.take k).flatten ++ (items[k] ++ (items.drop (k + 1)).flatten) := by
  conv => lhs; rw [← List.take_append_drop k items, List.drop_eq_getElem_cons hk]
  rw [List.flatten_append, List.flatten_cons]

theorem length_flatten_take_le {α : Type} (items : List (List α)) (k : Nat) :
    (items.take k).flatten.length ≤ items.flatten.length := by
  conv => rhs; rw [← List.take_append_drop k items]
  rw [List.flatten_append, List.length_append]
  exact Nat.le_add_right _ _

/-- Word `k` of a run of 32-bit words. -/
theorem numberAt_flatMap (words : List Nat) (rest : Bytes) {k : Nat} (hk : k < words.length)
    (hlt : words[k] < 2 ^ 32) :
    numberAt (words.flatMap (leBytes 4) ++ rest) (4 * k) = words[k] := by
  have hsplit : words.flatMap (leBytes 4) ++ rest
      = (words.take k).flatMap (leBytes 4) ++
        (leBytes 4 words[k] ++ ((words.drop (k + 1)).flatMap (leBytes 4) ++ rest)) := by
    conv => lhs; rw [← List.take_append_drop k words, List.drop_eq_getElem_cons hk]
    simp only [List.flatMap_append, List.flatMap_cons, List.append_assoc]
  have hpre : ((words.take k).flatMap (leBytes 4)).length = 4 * k := by
    rw [length_flatMap_leBytes, List.length_take]; omega
  have hmiddle := slice_middle ((words.take k).flatMap (leBytes 4)) (leBytes 4 words[k])
    ((words.drop (k + 1)).flatMap (leBytes 4) ++ rest)
  rw [hpre, length_leBytes] at hmiddle
  rw [numberAt, hsplit, hmiddle]
  exact leNat_leBytes hlt

/-- The whole words of a slice are its first bytes. -/
theorem flatMap_numberAt {s : Bytes} {m : Nat} (h : 4 * m ≤ s.length) :
    ((List.range m).map fun k => numberAt s (4 * k)).flatMap (leBytes 4) = slice s 0 (4 * m) := by
  induction m with
  | zero => simp [slice]
  | succ m ih =>
      have hlen : (slice s (4 * m) (4 * m + 4)).length = 4 := by
        rw [length_slice (by omega)]; omega
      have hword : leBytes 4 (numberAt s (4 * m)) = slice s (4 * m) (4 * m + 4) := by
        conv => rhs; rw [← leBytes_leNat (slice s (4 * m) (4 * m + 4)), hlen]
        rfl
      have hlast : ((List.range (m + 1)).map fun k => numberAt s (4 * k)).flatMap (leBytes 4)
          = slice s 0 (4 * m) ++ slice s (4 * m) (4 * m + 4) := by
        rw [List.range_succ, List.map_append, List.flatMap_append, ih (by omega), ← hword]
        simp
      rw [hlast, slice_append_slice (Nat.zero_le _) (by omega)]
      rfl

/-! ## From fields to a slice -/

theorem length_build (items : List Bytes) :
    (build items).length = 4 * (items.length + 1) + items.flatten.length := by
  simp only [build, List.length_append, length_leBytes, length_flatMap_leBytes,
    length_offsetWords]
  omega

section Build

variable {items : List Bytes}

/-- The header is a list of words, the length first. -/
theorem build_eq_words (items : List Bytes) :
    build items = ((build items).length :: offsetWords (4 * (items.length + 1)) items).flatMap
      (leBytes 4) ++ items.flatten := by
  rw [length_build, List.flatMap_cons]
  rfl

theorem numberAt_build_zero (h : (build items).length < 2 ^ 32) :
    numberAt (build items) 0 = (build items).length := by
  have hword := numberAt_flatMap
    ((build items).length :: offsetWords (4 * (items.length + 1)) items)
    items.flatten (k := 0) (by simp) h
  rwa [← build_eq_words] at hword

/-- The words after it are the offsets. -/
theorem numberAt_build_succ (h : (build items).length < 2 ^ 32) {k : Nat}
    (hk : k < items.length) :
    numberAt (build items) (4 * (k + 1)) =
      4 * (items.length + 1) + (items.take k).flatten.length := by
  have hoffset := getElem_offsetWords (4 * (items.length + 1)) items (k := k) (by simpa using hk)
  have hsum := length_flatten_take_le items k
  have hlen := length_build items
  have hword := numberAt_flatMap
    ((build items).length :: offsetWords (4 * (items.length + 1)) items)
    items.flatten (k := k + 1) (by simpa using hk)
    (by simp only [List.getElem_cons_succ, hoffset]; omega)
  rw [← build_eq_words] at hword
  rw [hword]
  simpa using hoffset

/-- The header counts the items. -/
theorem headerCount_build (h : (build items).length < 2 ^ 32) (hne : items ≠ []) :
    headerCount (build items) = items.length := by
  have hpos := List.length_pos_iff.mpr hne
  have hfirst := numberAt_build_succ h (k := 0) hpos
  simp only [List.take_zero, List.flatten_nil, List.length_nil, Nat.zero_add, Nat.mul_one,
    Nat.add_zero] at hfirst
  unfold headerCount
  omega

/-- Offset `k` is where item `k` begins. -/
theorem offsetAt_build (h : (build items).length < 2 ^ 32) (hne : items ≠ []) {k : Nat}
    (hk : k ≤ items.length) :
    offsetAt (build items) k = 4 * (items.length + 1) + (items.take k).flatten.length := by
  unfold offsetAt
  rw [headerCount_build h hne]
  split_ifs with hlt
  · exact numberAt_build_succ h hlt
  · have hend : k = items.length := by omega
    rw [numberAt_build_zero h, length_build, hend, List.take_length]

/-- Built sizes and offsets are those of an offset table. -/
theorem build_layout (h : (build items).length < 2 ^ 32) (hne : items ≠ []) :
    OffsetTable (build items) := by
  have hpos := List.length_pos_iff.mpr hne
  have hfirst := numberAt_build_succ h (k := 0) hpos
  simp only [List.take_zero, List.flatten_nil, List.length_nil, Nat.zero_add, Nat.mul_one,
    Nat.add_zero] at hfirst
  have hlen := length_build items
  refine ⟨(numberAt_build_zero h).symm, by omega, by omega, by omega, ?_⟩
  intro k hk
  rw [headerCount_build h hne] at hk
  rw [offsetAt_build h hne (by omega), offsetAt_build h hne (by omega),
    List.take_succ_eq_append_getElem hk, List.flatten_append, List.length_append]
  omega

/-- Part `k` is item `k`. -/
theorem part_build (h : (build items).length < 2 ^ 32) (hne : items ≠ []) {k : Nat}
    (hk : k < items.length) : part (build items) k = items[k] := by
  have hheader : (((build items).length ::
      offsetWords (4 * (items.length + 1)) items).flatMap (leBytes 4)).length
      = 4 * (items.length + 1) := by
    rw [length_flatMap_leBytes]; simp
  have hright := slice_append_right (((build items).length ::
      offsetWords (4 * (items.length + 1)) items).flatMap (leBytes 4)) items.flatten
      (items.take k).flatten.length ((items.take k).flatten.length + items[k].length)
  rw [← build_eq_words, hheader, flatten_split hk, slice_middle] at hright
  rw [part, offsetAt_build h hne (by omega), offsetAt_build h hne (by omega),
    List.take_succ_eq_append_getElem hk, List.flatten_append, List.length_append]
  simpa using hright

/-- **Round trip.**  The parts of a built string are the items it was built from.
-/
theorem parts_build (h : (build items).length < 2 ^ 32) (hne : items ≠ []) :
    parts (build items) = items := by
  apply List.ext_getElem
  · rw [length_parts, headerCount_build h hne]
  · intro k hk hk'
    rw [getElem_parts hk, part_build h hne hk']

/-- The accessors of a built table return its fields. -/
theorem field_build (h : (build items).length < 2 ^ 32) {k : Nat} (hk : k < items.length) :
    Table.field items.length (build items) k = .ok items[k] := by
  have hne : items ≠ [] := List.ne_nil_of_length_pos (Nat.zero_lt_of_lt hk)
  rw [(build_layout h hne).field_eq (Nat.le_of_eq (headerCount_build h hne).symm) hk,
    part_build h hne hk]

/-- A built table verifies once its fields do. -/
theorem verifyTable_build {name : String} {fields : List (Bytes → VerificationResult)}
    {compatible : Bool} (h : (build items).length < 2 ^ 32) (hne : items ≠ [])
    (hfields : List.Forall₂ (fun verify item => verify item = .ok ()) fields items) :
    verifyTable name fields compatible (build items) = .ok () := by
  have hcount := headerCount_build h hne
  have hlen := hfields.length_eq
  refine verifyTable_eq_ok.mpr ⟨build_layout h hne, by omega, fun _ => by omega, ?_⟩
  refine verifyFields_eq_ok.mpr fun i hi => ?_
  have hi' : i < items.length := by omega
  rw [Nat.zero_add, part_build h hne hi']
  exact hfields.get hi hi'

end Build

/-- A slice with an offset table is rebuilt from its parts. -/
theorem build_parts {s : Bytes} (ht : OffsetTable s) : build (parts s) = s := by
  have hflat : (parts s).flatten = slice s (4 * (headerCount s + 1)) s.length := by
    have htake := ht.flatten_take_parts (Nat.le_refl _)
    rwa [← length_parts, List.take_length, length_parts, ht.offsetAt_zero,
      ht.offsetAt_headerCount] at htake
  have hlen : (build (parts s)).length = s.length := by
    have hle := ht.header_le
    rw [length_build, length_parts, hflat, length_slice (Nat.le_refl _)]
    omega
  have hwords : (build (parts s)).length :: offsetWords (4 * ((parts s).length + 1)) (parts s)
      = (List.range (headerCount s + 1)).map fun k => numberAt s (4 * k) := by
    apply List.ext_getElem
    · simp
    · intro k hk hk'
      cases k with
      | zero => simp [hlen, ht.total]
      | succ k =>
          have hcount : k < headerCount s := by simpa using hk'
          have hmono := ht.offsetAt_mono (Nat.zero_le k) (Nat.le_of_lt hcount)
          have hzero := ht.offsetAt_zero
          have htake : ((parts s).take k).flatten.length = offsetAt s k - offsetAt s 0 := by
            rw [ht.flatten_take_parts (by omega), length_slice (ht.offsetAt_le (by omega))]
          have hoffset : offsetAt s k = numberAt s (4 * (k + 1)) := by
            rw [offsetAt, if_pos hcount]
          simp only [List.getElem_cons_succ, getElem_offsetWords, htake, length_parts,
            List.getElem_map, List.getElem_range, ← hoffset]
          omega
  rw [build_eq_words, hwords, flatMap_numberAt (by have := ht.header_le; omega), hflat,
    slice_append_slice (Nat.zero_le _) ht.header_le, slice_all]

/-- A slice that verifies as a table without extra fields is the build of its
fields. -/
theorem build_of_verifyTable {name : String} {fields : List (Bytes → VerificationResult)}
    {s : Bytes} (h : verifyTable name fields false s = .ok ()) :
    build (parts s) = s ∧ (parts s).length = fields.length ∧ s.length < 2 ^ 32 := by
  obtain ⟨ht, hcount, hextra, -⟩ := verifyTable_eq_ok.mp h
  have hstrict := hextra rfl
  have htotal := ht.total
  have hlt := numberAt_lt s 0
  exact ⟨build_parts ht, by rw [length_parts]; omega, by omega⟩

/-- The parts of such a slice, one for every declared field. -/
theorem parts_of_verifyTable {name : String} {fields : List (Bytes → VerificationResult)}
    {s : Bytes} (h : verifyTable name fields false s = .ok ()) :
    parts s = (List.range fields.length).map (part s) := by
  obtain ⟨-, hlen, -⟩ := build_of_verifyTable h
  rw [length_parts] at hlen
  rw [parts, hlen]

/-! ## Vectors -/

/-- Building a vector with items of variable size, empty or not. -/
theorem dynVec_build_layout {items : List Bytes} (h : (build items).length < 2 ^ 32) :
    DynVec.Layout (build items) := by
  by_cases hne : items = []
  · subst hne
    exact Or.inl ⟨rfl, by decide⟩
  · exact Or.inr (build_layout h hne)

/-- A dynamic vector is read back as the items it was built from. -/
theorem dynVec_items_build {items : List Bytes} (h : (build items).length < 2 ^ 32) :
    DynVec.items (build items) = items := by
  by_cases hne : items = []
  · subst hne
    rfl
  · rw [DynVec.items_table (build_layout h hne), parts_build h hne]

/-- A vector is a header of one word for every item and one for the size, and
the items. -/
theorem DynVec.length_eq {s : Bytes} (h : DynVec.Layout s) :
    s.length = 4 * ((DynVec.items s).length + 1) + (DynVec.items s).flatten.length := by
  rcases h with hempty | ht
  · simp [DynVec.items_empty hempty, hempty.1]
  · rw [DynVec.items_table ht, ← length_build, build_parts ht]

theorem length_flatten_of_length {items : List Bytes} {size : Nat}
    (h : ∀ item ∈ items, item.length = size) : items.flatten.length = size * items.length := by
  induction items with
  | nil => simp
  | cons item items ih =>
      have hhead := h item (by simp)
      have htail := ih fun x hx => h x (by simp [hx])
      simp [hhead, htail, Nat.mul_succ]
      omega

section FixVec

variable {items : List Bytes} {size : Nat}

theorem numberAt_buildFixVec (h : items.length < 2 ^ 32) :
    numberAt (buildFixVec items) 0 = items.length := by
  have hword := numberAt_flatMap [items.length] items.flatten (k := 0) (by simp) h
  simpa [buildFixVec] using hword

/-- A fixed vector is as long as its count says. -/
theorem buildFixVec_layout (hsize : ∀ item ∈ items, item.length = size)
    (h : items.length < 2 ^ 32) :
    (buildFixVec items).length = 4 + size * numberAt (buildFixVec items) 0 := by
  rw [numberAt_buildFixVec h]
  simp [buildFixVec, ← length_flatten_of_length hsize]

/-- A fixed vector is read back as the items it was built from. -/
theorem fixVec_items_build (hsize : ∀ item ∈ items, item.length = size)
    (h : items.length < 2 ^ 32) : FixVec.items size (buildFixVec items) = items := by
  apply List.ext_getElem
  · rw [FixVec.length_items, numberAt_buildFixVec h]
  · intro k hk hk'
    have hsplit : buildFixVec items = (leBytes 4 items.length ++ (items.take k).flatten) ++
        (items[k] ++ (items.drop (k + 1)).flatten) := by
      rw [buildFixVec, flatten_split hk', List.append_assoc]
    have hpre : (leBytes 4 items.length ++ (items.take k).flatten).length = 4 + size * k := by
      rw [List.length_append, length_leBytes, length_flatten_of_length
        (fun item hitem => hsize item (List.mem_of_mem_take hitem)), List.length_take]
      congr 2
      omega
    have hitem := hsize items[k] (List.getElem_mem hk')
    have hmiddle := slice_middle (leBytes 4 items.length ++ (items.take k).flatten) items[k]
      (items.drop (k + 1)).flatten
    rw [hpre, hitem, ← hsplit] at hmiddle
    simpa [FixVec.items] using hmiddle

end FixVec

section Bytes

variable {content : Bytes}

theorem numberAt_buildBytes (h : content.length < 2 ^ 32) :
    numberAt (buildBytes content) 0 = content.length := by
  have hword := numberAt_flatMap [content.length] content (k := 0) (by simp) h
  simpa [buildBytes] using hword

/-- A slice that verifies as a byte vector is the build of its bytes. -/
theorem buildBytes_of_verify {s : Bytes} (h : s.length = 4 + 1 * numberAt s 0) :
    buildBytes (s.drop 4) = s ∧ (s.drop 4).length < 2 ^ 32 := by
  have hlt := numberAt_lt s 0
  have hlen : (s.drop 4).length = numberAt s 0 := by rw [List.length_drop]; omega
  have hword : leBytes 4 (numberAt s 0) = s.take 4 := by
    have hfour : (slice s 0 4).length = 4 := length_slice (by omega)
    have hread := leBytes_leNat (slice s 0 4)
    rw [hfour] at hread
    exact hread
  refine ⟨?_, by omega⟩
  rw [buildBytes, hlen, hword, List.take_append_drop]

/-- `raw_data` gives the bytes back. -/
theorem rawData_buildBytes (content : Bytes) : rawData (buildBytes content) = .ok content := by
  have hraw := rawData_ok (s := buildBytes content) (by simp [buildBytes])
  have hslice := slice_middle (leBytes 4 content.length) content []
  simp only [length_leBytes, List.append_nil] at hslice
  rw [hraw]
  congr 1
  simpa [buildBytes] using hslice

end Bytes

end Molecule
