import CkbVote.MoleculeBuild

/-!
# Codecs between values and molecule slices

A codec decodes a slice to a value and encodes a value to a slice, and either
may throw.  A table codec is made from named codecs, field after field.

Molecule slices are canonical, so what matters of a codec is whether it
`RoundTrips` a slice.  `IsTable`, `IsBytes` and `IsFixed` are specifications:
`IsTable.roundTrips` and `IsTable.decode_eq_none` are all that is used of a table
codec, and `table`, `bytes`, `number` and `fixedHex` meet them.
-/

namespace Molecule

open Octets

/-- Numbers of any width, byte strings in hex, strings, and objects. -/
inductive Value
  | num (n : Nat)
  | hex (content : Bytes)
  | str (text : String)
  | object (fields : List (String × Value))

/-- `none` is a thrown error. -/
structure Codec where
  encode : Value → Option Bytes
  decode : Bytes → Option Value

namespace Codec

/-- Encoding what a slice decodes to gives the slice. -/
def RoundTrips (codec : Codec) (s : Bytes) : Prop :=
  ∃ v, codec.decode s = some v ∧ codec.encode v = some s

abbrev Fields := List (String × Codec)

def encodeFields : Fields → List (String × Value) → Option (List Bytes)
  | [], _ => some []
  | (name, codec) :: fields, object => do
      let v ← object.lookup name
      let item ← codec.encode v
      let items ← encodeFields fields object
      some (item :: items)

def decodeFields : Fields → List Bytes → Option (List (String × Value))
  | (name, codec) :: fields, item :: items => do
      let v ← codec.decode item
      let object ← decodeFields fields items
      some ((name, v) :: object)
  | _, _ => some []

/-! ## Specifications -/

/-- A codec for slices of one size. -/
def IsFixed (codec : Codec) (width : Nat) : Prop :=
  ∀ s : Bytes, s.length = width → codec.RoundTrips s

/-- A codec for byte vectors. -/
structure IsBytes (codec : Codec) : Prop where
  encode_eq : ∀ content : Bytes, content.length < 2 ^ 32 →
    codec.encode (.hex content) = some (buildBytes content)
  decode_eq : ∀ content : Bytes, content.length < 2 ^ 32 →
    codec.decode (buildBytes content) = some (.hex content)

/-- A way to make codecs for tables whose size fits into a header word. -/
structure IsTable (table : Fields → Codec) : Prop where
  encode_eq : ∀ fields object items, encodeFields fields object = some items →
    (build items).length < 2 ^ 32 → (table fields).encode (.object object) = some (build items)
  decode_eq : ∀ fields items, items ≠ [] → items.length = fields.length →
    (build items).length < 2 ^ 32 →
      (table fields).decode (build items) = (decodeFields fields items).map .object

/-- Bytes below 4 GiB are decoded and encoded to themselves. -/
theorem IsBytes.roundTrips {codec : Codec} (h : IsBytes codec) {content : Bytes}
    (hlen : content.length < 2 ^ 32) : codec.RoundTrips (buildBytes content) :=
  ⟨.hex content, h.decode_eq content hlen, h.encode_eq content hlen⟩

/-! ## Tables -/

section Tables

variable {fields : Fields} {items : List Bytes} {table : Fields → Codec}

/-- With distinct keys, each entry is found under its key. -/
theorem lookup_of_mem {object : List (String × Value)} (hkeys : (object.map Prod.fst).Nodup)
    {entry : String × Value} (h : entry ∈ object) : object.lookup entry.1 = some entry.2 := by
  induction object with
  | nil => cases h
  | cons head object ih =>
      obtain ⟨name, v⟩ := head
      rw [List.map_cons, List.nodup_cons] at hkeys
      rcases List.mem_cons.mp h with rfl | h
      · exact List.lookup_cons_self
      · have hne : entry.1 ≠ name := by
          intro heq
          exact hkeys.1 (List.mem_map.mpr ⟨entry, h, heq⟩)
        rw [List.lookup_cons, beq_false_of_ne hne]
        exact ih hkeys.2 h

/-- Every field's codec round trips on the item in its place. -/
def RoundTripAll (fields : Fields) (items : List Bytes) : Prop :=
  List.Forall₂ (fun field item => field.2.RoundTrips item) fields items

/-- An object with a value for every field, in their order, is encoded field by
field. -/
theorem encodeFields_zip {pairs : List (Value × Bytes)} (hkeys : (fields.map Prod.fst).Nodup)
    (h : List.Forall₂ (fun field pair => field.2.encode pair.1 = some pair.2) fields pairs) :
    encodeFields fields ((fields.map Prod.fst).zip (pairs.map Prod.fst)) =
      some (pairs.map Prod.snd) := by
  have hlen := h.length_eq
  have hobject : (((fields.map Prod.fst).zip (pairs.map Prod.fst)).map Prod.fst).Nodup := by
    rwa [List.map_fst_zip (by simp [hlen])]
  have hlookup : ∀ entry ∈ (fields.map Prod.fst).zip (pairs.map Prod.fst),
      ((fields.map Prod.fst).zip (pairs.map Prod.fst)).lookup entry.1 = some entry.2 :=
    fun _ hentry => lookup_of_mem hobject hentry
  clear hobject hkeys hlen
  generalize hwhole : (fields.map Prod.fst).zip (pairs.map Prod.fst) = whole at hlookup
  have hsub : ∀ entry ∈ (fields.map Prod.fst).zip (pairs.map Prod.fst),
      whole.lookup entry.1 = some entry.2 := fun entry hentry => hlookup entry (hwhole ▸ hentry)
  clear hlookup hwhole
  induction h with
  | nil => rfl
  | @cons field pair fields pairs hfirst _ ih =>
      obtain ⟨name, codec⟩ := field
      obtain ⟨hhead, htail⟩ := List.forall_mem_cons.mp hsub
      have hvalue : whole.lookup name = some pair.1 := hhead
      have hencode : codec.encode pair.1 = some pair.2 := hfirst
      simp [encodeFields, hvalue, hencode, ih htail]

/-- A table codec encodes an object with a value for every field. -/
theorem IsTable.encode_zip (htable : IsTable table) {pairs : List (Value × Bytes)}
    (hkeys : (fields.map Prod.fst).Nodup)
    (h : List.Forall₂ (fun field pair => field.2.encode pair.1 = some pair.2) fields pairs)
    (hsize : (build (pairs.map Prod.snd)).length < 2 ^ 32) :
    (table fields).encode (.object ((fields.map Prod.fst).zip (pairs.map Prod.fst))) =
      some (build (pairs.map Prod.snd)) :=
  htable.encode_eq _ _ _ (encodeFields_zip hkeys h) hsize

/-- Fields that round trip decode to an object that encodes to them. -/
theorem exists_decodeFields (h : RoundTripAll fields items) :
    ∃ object, decodeFields fields items = some object ∧
      object.map Prod.fst = fields.map Prod.fst ∧
      ∀ whole : List (String × Value), (∀ entry ∈ object, whole.lookup entry.1 = some entry.2) →
        encodeFields fields whole = some items := by
  induction h with
  | nil => exact ⟨[], rfl, rfl, fun _ _ => rfl⟩
  | @cons field item fields items hfirst _ ih =>
      obtain ⟨name, codec⟩ := field
      obtain ⟨v, hdecode, hencode⟩ := hfirst
      have hdecode : codec.decode item = some v := hdecode
      have hencode : codec.encode v = some item := hencode
      obtain ⟨object, hobject, hnames, hback⟩ := ih
      refine ⟨(name, v) :: object, by simp [decodeFields, hdecode, hobject], by simp [hnames],
        fun whole hwhole => ?_⟩
      obtain ⟨hhead, htail⟩ := List.forall_mem_cons.mp hwhole
      have hfirst : whole.lookup name = some v := hhead
      simp [encodeFields, hfirst, hencode, hback whole htail]

/-- A decoded object has, under the name of each field, what its item decodes to. -/
theorem lookup_of_decodeFields {object : List (String × Value)} {i : Nat} {field : String × Codec}
    {item : Bytes} (hkeys : (fields.map Prod.fst).Nodup)
    (h : decodeFields fields items = some object) (hfield : fields[i]? = some field)
    (hitem : items[i]? = some item) :
    ∃ v, object.lookup field.1 = some v ∧ field.2.decode item = some v := by
  induction fields generalizing items object i with
  | nil => cases hfield
  | cons first fields ih =>
      cases items with
      | nil => cases hitem
      | cons head items =>
          obtain ⟨hnotin, hnodup⟩ := List.nodup_cons.mp hkeys
          obtain ⟨name, codec⟩ := first
          simp only [decodeFields, Option.bind_eq_bind, Option.bind_eq_some_iff,
            Option.some.injEq] at h
          obtain ⟨v, hdecode, rest, hrest, rfl⟩ := h
          cases i with
          | zero =>
              obtain rfl := Option.some.inj hfield
              obtain rfl := Option.some.inj hitem
              exact ⟨v, by simp, hdecode⟩
          | succ i =>
              have hfield : fields[i]? = some field := hfield
              have hmem : field.1 ∈ fields.map Prod.fst :=
                List.mem_map_of_mem (List.mem_of_getElem? hfield)
              have hne : field.1 ≠ name := fun heq => hnotin (heq ▸ hmem)
              obtain ⟨w, hlookup, hw⟩ := ih hnodup hrest hfield hitem
              exact ⟨w, by rw [List.lookup_cons, beq_false_of_ne hne, hlookup], hw⟩

/-- A table round trips when its fields do. -/
theorem IsTable.roundTrips (htable : IsTable table) (hkeys : (fields.map Prod.fst).Nodup)
    (hne : items ≠ []) (hsize : (build items).length < 2 ^ 32) (h : RoundTripAll fields items) :
    (table fields).RoundTrips (build items) := by
  obtain ⟨object, hobject, hnames, hback⟩ := exists_decodeFields h
  have hencode := hback object fun entry hentry => lookup_of_mem (hnames ▸ hkeys) hentry
  refine ⟨.object object, ?_, htable.encode_eq _ _ _ hencode hsize⟩
  rw [htable.decode_eq _ _ hne h.length_eq.symm hsize, hobject]
  rfl

/-- A table does not decode when one of its fields does not. -/
theorem IsTable.decode_eq_none (htable : IsTable table) (hne : items ≠ [])
    (hlen : items.length = fields.length) (hsize : (build items).length < 2 ^ 32)
    (h : ∃ p ∈ fields.zip items, p.1.2.decode p.2 = none) :
    (table fields).decode (build items) = none := by
  rw [htable.decode_eq _ _ hne hlen hsize, Option.map_eq_none_iff]
  clear hsize hne
  induction fields generalizing items with
  | nil => simp at h
  | cons field fields ih =>
      obtain ⟨name, codec⟩ := field
      cases items with
      | nil => cases hlen
      | cons item items =>
          rw [List.zip_cons_cons, List.exists_mem_cons_iff] at h
          rcases h with hnone | hrest
          · simp [decodeFields, show codec.decode item = none from hnone]
          · have hfields := ih (by simpa using hlen) hrest
            cases hdecode : codec.decode item <;> simp [decodeFields, hdecode, hfields]

section Verified

variable {name : String} {checks : List (Bytes → VerificationResult)} {s : Bytes}

/-- A verified slice with a codec for each of its fields. -/
theorem IsTable.roundTrips_of_verify (htable : IsTable table)
    (h : verifyTable name checks false s = .ok ()) (hkeys : (fields.map Prod.fst).Nodup)
    (hne : fields ≠ [])
    (hfields : RoundTripAll fields ((List.range checks.length).map (part s))) :
    (table fields).RoundTrips s := by
  obtain ⟨hbuild, -, hsize⟩ := build_of_verifyTable h
  have hparts := parts_of_verifyTable h
  rw [← hparts] at hfields
  have hpartsNe : parts s ≠ [] := by
    intro hnil
    have hlen := hfields.length_eq
    rw [hnil, List.length_nil, List.length_eq_zero_iff] at hlen
    exact hne hlen
  have hround := htable.roundTrips hkeys hpartsNe (by rwa [hbuild]) hfields
  rwa [hbuild] at hround

/-- A table does not decode when one of its fields does not. -/
theorem IsTable.decode_eq_none_of_verify (htable : IsTable table)
    (h : verifyTable name checks false s = .ok ()) (hlen : fields.length = checks.length) (k : Nat)
    (hk : k < fields.length) (hnone : fields[k].2.decode (part s k) = none) :
    (table fields).decode s = none := by
  obtain ⟨hbuild, hcount, hsize⟩ := build_of_verifyTable h
  have hk' : k < (parts s).length := by omega
  have hmem : (fields[k], part s k) ∈ fields.zip (parts s) := by
    have hzip : k < (fields.zip (parts s)).length := by rw [List.length_zip]; omega
    have hentry := List.getElem_mem hzip
    rwa [List.getElem_zip, getElem_parts hk'] at hentry
  have hparts : parts s ≠ [] := List.ne_nil_of_length_pos (by omega)
  have hthrow := htable.decode_eq_none hparts (by omega) (by rwa [hbuild]) ⟨_, hmem, hnone⟩
  rwa [hbuild] at hthrow

end Verified

end Tables

/-! ## Codecs that meet the specifications -/

def number (width : Nat) : Codec where
  encode
    | .num n => if n < 256 ^ width then some (leBytes width n) else none
    | _ => none
  decode s := if s.length = width then some (.num (leNat s)) else none

def fixedHex (width : Nat) : Codec where
  encode
    | .hex content => if content.length = width then some content else none
    | _ => none
  decode s := if s.length = width then some (.hex s) else none

def bytes : Codec where
  encode
    | .hex content => if content.length < 2 ^ 32 then some (buildBytes content) else none
    | _ => none
  decode s := if s.length = 4 + numberAt s 0 then some (.hex (s.drop 4)) else none

def table (fields : Fields) : Codec where
  encode
    | .object object => do
        let items ← encodeFields fields object
        if (build items).length < 2 ^ 32 then some (build items) else none
    | _ => none
  decode s :=
    if s.length = numberAt s 0 ∧ fields.length ≤ headerCount s then
      (decodeFields fields (parts s)).map .object
    else none

theorem isFixed_number (width : Nat) : IsFixed (number width) width := by
  intro s hs
  have hlt := leNat_lt s
  rw [hs] at hlt
  refine ⟨.num (leNat s), if_pos hs, ?_⟩
  have hback := leBytes_leNat s
  rw [hs] at hback
  simp [number, hlt, hback]

theorem isFixed_fixedHex (width : Nat) : IsFixed (fixedHex width) width :=
  fun s hs => ⟨.hex s, if_pos hs, if_pos hs⟩

theorem isBytes_bytes : IsBytes bytes where
  encode_eq _ h := if_pos h
  decode_eq content h := by
    have hcount := numberAt_buildBytes h
    have hlen : (buildBytes content).length = 4 + content.length := by simp [buildBytes]
    have hdrop : (buildBytes content).drop 4 = content := by
      simp [buildBytes]
    simp only [bytes, hcount, hlen, if_true, hdrop]

theorem isTable_table : IsTable table where
  encode_eq fields object items hitems hsize := by
    simp only [table, hitems]
    exact if_pos hsize
  decode_eq fields items hne hlen hsize := by
    have htotal := numberAt_build_zero hsize
    have hcount := headerCount_build hsize hne
    simp only [table, parts_build hsize hne]
    rw [if_pos ⟨htotal.symm, by omega⟩]

end Codec

end Molecule
