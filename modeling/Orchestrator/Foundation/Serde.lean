import Orchestrator.Foundation.Json
import Orchestrator.Foundation.Lists

/-!
# JSON forms of data

A type has a JSON form when its values are written as JSON values and read from
them. `Reads` is that a value is read back from what was written for it; the
lemmas tell for each way to build a form which of its values that holds of.

Absence is written as null, and null is read as absence. A double without a JSON
form is written as null. Only what is written is read: a format may accept more,
such as an array in place of an object or an integer in place of a double.
-/

namespace Json

/-- A type whose values have a JSON form. -/
class Serde (α : Type) where
  toValue : α → Value
  fromValue : Value → Option α
  /-- What an object without the field stands for. -/
  absent : Option α := none

export Serde (toValue fromValue)

/-- The value is read back from what is written for it. -/
def Reads {α : Type} [Serde α] (a : α) : Prop := fromValue (toValue a) = some a

@[simp] theorem Reads.eq {α : Type} [Serde α] {a : α} (h : Reads a) :
    fromValue (toValue a) = some a := h

/-- The entries of an object. -/
def Value.entries : Value → Option (List (String × Value))
  | .object entries => some entries
  | _ => none

/-- The field of an object with the given entries. -/
def field {α : Type} [Serde α] (entries : List (String × Value)) (name : String) : Option α :=
  match entries.lookup name with
  | some value => fromValue value
  | none => Serde.absent

/-- The field of an object that may be left out for a default. -/
def fieldD {α : Type} [Serde α] (entries : List (String × Value)) (name : String) (default : α) :
    Option α :=
  match entries.lookup name with
  | some value => fromValue value
  | none => some default

/-- The name of a variant and its content, in an object with that one entry. -/
def Value.variant : Value → Option (String × Value)
  | .object [entry] => some entry
  | _ => none

section Fields

variable {α : Type} [Serde α] {entries : List (String × Value)} {name other : String}
    {value : Value}

@[simp] theorem entries_object : (Value.object entries).entries = some entries := rfl

@[simp] theorem variant_object : (Value.object [(name, value)]).variant = some (name, value) := rfl

@[simp] theorem field_cons_self :
    field ((name, value) :: entries) name = (fromValue value : Option α) := by
  simp [field]

@[simp] theorem field_cons_ne (different : name ≠ other) :
    field ((other, value) :: entries) name = (field entries name : Option α) := by
  simp [field, List.lookup_cons, beq_eq_false_iff_ne.mpr different]

@[simp] theorem fieldD_cons_self {default : α} :
    fieldD ((name, value) :: entries) name default = fromValue value := by
  simp [fieldD]

@[simp] theorem fieldD_cons_ne {default : α} (different : name ≠ other) :
    fieldD ((other, value) :: entries) name default = fieldD entries name default := by
  simp [fieldD, List.lookup_cons, beq_eq_false_iff_ne.mpr different]

/-! The same for a field that is read at once. Rewriting from the outside in, the rest of
the reader is looked at only when the value of the field is known. -/

variable {β : Type}

@[simp ↓] theorem entries_object_bind {k : List (String × Value) → Option β} :
    ((Value.object entries).entries >>= k) = k entries := rfl

@[simp ↓] theorem variant_object_bind {k : String × Value → Option β} :
    ((Value.object [(name, value)]).variant >>= k) = k (name, value) := rfl

@[simp ↓] theorem fromValue_toValue_bind {a : α} {k : α → Option β} (reads : Reads a) :
    (fromValue (toValue a) >>= k) = k a := by
  rw [reads.eq]
  rfl

@[simp ↓ low] theorem field_cons_self_bind {k : α → Option β} :
    (field ((name, value) :: entries) name >>= k) = (fromValue value >>= k) := by
  rw [field_cons_self]

@[simp ↓] theorem field_cons_ne_bind {k : α → Option β} (different : name ≠ other) :
    (field ((other, value) :: entries) name >>= k) = (field entries name >>= k) := by
  rw [field_cons_ne different]

@[simp ↓ low] theorem fieldD_cons_self_bind {default : α} {k : α → Option β} :
    (fieldD ((name, value) :: entries) name default >>= k) = (fromValue value >>= k) := by
  rw [fieldD_cons_self]

@[simp ↓] theorem fieldD_cons_ne_bind {default : α} {k : α → Option β}
    (different : name ≠ other) :
    (fieldD ((other, value) :: entries) name default >>= k) =
      (fieldD entries name default >>= k) := by
  rw [fieldD_cons_ne different]

end Fields

section Scalars

instance : Serde Value := ⟨id, some, none⟩

instance : Serde String where
  toValue := .string
  fromValue
    | .string s => some s
    | _ => none

instance : Serde Bool where
  toValue := .bool
  fromValue
    | .bool b => some b
    | _ => none

instance : Serde UInt64 where
  toValue n := .number (.posInt n)
  fromValue
    | .number (.posInt n) => some n
    | _ => none

instance : Serde UInt32 where
  toValue n := .number (.posInt n.toUInt64)
  fromValue
    | .number (.posInt n) => if n.toNat < UInt32.size then some n.toUInt32 else none
    | _ => none

instance : Serde UInt16 where
  toValue n := .number (.posInt n.toUInt64)
  fromValue
    | .number (.posInt n) => if n.toNat < UInt16.size then some n.toUInt16 else none
    | _ => none

instance : Serde Binary64 where
  toValue x := if finite : x.isFinite = true then .number (.float x finite) else .null
  fromValue
    | .number (.float x _) => some x
    | _ => none

@[simp] theorem reads_value (value : Value) : Reads value := rfl

@[simp] theorem reads_string (s : String) : Reads s := rfl

@[simp] theorem reads_bool (b : Bool) : Reads b := rfl

@[simp] theorem reads_uint64 (n : UInt64) : Reads n := rfl

@[simp] theorem reads_uint32 (n : UInt32) : Reads n := by
  have fits : n.toUInt64.toNat < UInt32.size := by
    rw [UInt32.toNat_toUInt64]
    exact n.toNat_lt_size
  change (if n.toUInt64.toNat < UInt32.size then some n.toUInt64.toUInt32 else none) = some n
  rw [if_pos fits, UInt32.toUInt32_toUInt64]

@[simp] theorem reads_uint16 (n : UInt16) : Reads n := by
  have fits : n.toUInt64.toNat < UInt16.size := by
    rw [UInt16.toNat_toUInt64]
    exact n.toNat_lt_size
  change (if n.toUInt64.toNat < UInt16.size then some n.toUInt64.toUInt16 else none) = some n
  rw [if_pos fits, UInt16.toUInt16_toUInt64]

/-- A double is read back just if it is finite. -/
@[simp] theorem reads_binary64 (x : Binary64) : Reads x ↔ x.isFinite = true := by
  by_cases finite : x.isFinite = true
  · simp [Reads, toValue, fromValue, finite]
  · simp [Reads, toValue, fromValue, finite]

end Scalars

section Options

/-- A type none of whose values is written as null. -/
class NonNull (α : Type) [Serde α] : Prop where
  toValue_ne_null : ∀ a : α, toValue a ≠ .null

instance : NonNull String := ⟨fun _ written => nomatch written⟩

instance : NonNull UInt64 := ⟨fun _ written => nomatch written⟩

variable {α : Type} [Serde α]

instance : Serde (Option α) where
  toValue
    | some a => toValue a
    | none => .null
  fromValue
    | .null => some none
    | value => (fromValue value).map some
  absent := some none

theorem reads_none : Reads (none : Option α) := rfl

/-- A value that is there is read back unless it is written as null. -/
theorem reads_some (a : α) : Reads (some a) ↔ toValue a ≠ .null ∧ Reads a := by
  change (match toValue a with
    | .null => some none
    | value => (fromValue value).map some) = some (some a) ↔ _ ∧ fromValue (toValue a) = some a
  cases toValue a <;> simp

/-- Where null stands for absence only, presence makes no difference. -/
@[simp] theorem reads_option [NonNull α] (o : Option α) : Reads o ↔ ∀ a ∈ o, Reads a := by
  cases o with
  | none => simp [reads_none]
  | some a => simp [reads_some, NonNull.toValue_ne_null]

end Options

section Sequences

variable {α : Type} [Serde α]

instance : Serde (List α) where
  toValue items := .array (items.map toValue)
  fromValue
    | .array values => values.mapM fromValue
    | _ => none

/-- A list is read back just if all its items are. -/
@[simp] theorem reads_list (items : List α) : Reads items ↔ ∀ a ∈ items, Reads a := by
  change (items.map toValue).mapM fromValue = some items ↔ _
  induction items with
  | nil => simp
  | cons a items ih =>
      simp only [List.map_cons, List.mapM_cons, bind, pure, Option.bind_eq_some_iff,
        Option.some.injEq, List.cons.injEq, List.forall_mem_cons, ← ih]
      constructor
      · rintro ⟨b, first, others, rest, rfl, rfl⟩
        exact ⟨first, rest⟩
      · rintro ⟨first, rest⟩
        exact ⟨a, first, items, rest, rfl, rfl⟩

instance : Serde (BTreeSet String) where
  toValue items := toValue items.toList
  fromValue value := (fromValue value : Option (List String)).map (Std.ExtTreeSet.ofList · compare)

@[simp] theorem reads_set (items : BTreeSet String) : Reads items := by
  have listed : fromValue (toValue items.toList) = some items.toList :=
    (reads_list items.toList).mpr fun a _ => reads_string a
  have same : Std.ExtTreeSet.ofList items.toList compare = items := by
    refine Std.ExtTreeSet.ext_mem fun s => ?_
    rw [Std.ExtTreeSet.mem_ofList, List.contains_iff_mem, Std.ExtTreeSet.mem_toList]
  change (fromValue (toValue items.toList)).map (Std.ExtTreeSet.ofList · compare) = some items
  rw [listed, Option.map_some, same]

end Sequences

/-- A type whose values are keys of objects. -/
class Key (κ : Type) where
  toKey : κ → String
  ofKey : String → κ
  ofKey_toKey : ∀ k, ofKey (toKey k) = k

instance : Key String := ⟨id, id, fun _ => rfl⟩

section Maps

variable {κ α : Type} [Ord κ] [Std.TransOrd κ] [Std.LawfulEqOrd κ] [Key κ] [Serde α]

/-- The entry of a map that an entry of an object stands for. -/
def readEntry (κ α : Type) [Key κ] [Serde α] (entry : String × Value) : Option (κ × α) :=
  (fromValue entry.2).map fun a => (Key.ofKey entry.1, a)

instance : Serde (BTreeMap κ α) where
  toValue m := .object (m.toList.map fun entry => (Key.toKey entry.1, toValue entry.2))
  fromValue value := value.entries >>= fun entries =>
    (entries.mapM (readEntry κ α)).map (Std.ExtTreeMap.ofList · compare)

omit [Std.LawfulEqOrd κ] in
/-- What a map is read back to: its entries with their values read back. -/
theorem fromValue_toValue_map (m : BTreeMap κ α) :
    (fromValue (toValue m) : Option (BTreeMap κ α)) = (m.toList.mapM fun entry =>
      (fromValue (toValue entry.2)).map fun a => (entry.1, a)).map
        (Std.ExtTreeMap.ofList · compare) := by
  change ((m.toList.map fun entry => (Key.toKey entry.1, toValue entry.2)).mapM
    (readEntry κ α)).map _ = _
  have read : (readEntry κ α ∘ fun entry : κ × α => (Key.toKey entry.1, toValue entry.2)) =
      fun entry => (fromValue (toValue entry.2)).map fun a => (entry.1, a) := by
    funext entry
    simp only [Function.comp_apply, readEntry, Key.ofKey_toKey]
  rw [List.mapM_map, read]

/-- The entries of a map that is read, with their values read back. -/
theorem getElem?_of_fromValue_map {m m' : BTreeMap κ α} (read : fromValue (toValue m) = some m')
    (k : κ) : m'[k]? = m[k]?.bind fun a => fromValue (toValue a) := by
  rw [fromValue_toValue_map] at read
  obtain ⟨pairs, all, rfl⟩ := Option.map_eq_some_iff.mp read
  have each := List.mapM_eq_some_iff.mp all
  have keys : m.toList.map Prod.fst = pairs.map Prod.fst := by
    generalize m.toList = entries at each
    clear read all
    induction each with
    | nil => rfl
    | cons first _ ih =>
        obtain ⟨b, -, rfl⟩ := Option.map_eq_some_iff.mp first
        rw [List.map_cons, List.map_cons, ih]
  have distinct : (pairs.map Prod.fst).Nodup := keys ▸ BTreeMap.keys_nodup m
  cases found : m[k]? with
  | some a =>
      obtain ⟨pair, inside, mapped⟩ := List.exists_of_forall₂ each
        (Std.ExtTreeMap.mem_toList_iff_getElem?_eq_some.mpr found)
      obtain ⟨b, value, rfl⟩ := Option.map_eq_some_iff.mp mapped
      rw [Option.bind_some, value]
      exact (BTreeMap.getElem?_ofList distinct).mpr inside
  | none =>
      rw [Option.bind_none, Option.eq_none_iff_forall_ne_some]
      intro b stored
      have member := List.mem_map_of_mem (f := Prod.fst)
        ((BTreeMap.getElem?_ofList distinct).mp stored)
      rw [← keys] at member
      obtain ⟨entry, inside, rfl⟩ := List.mem_map.mp member
      have there := Std.ExtTreeMap.mem_toList_iff_getElem?_eq_some.mp inside
      rw [found] at there
      cases there

/-- A map is read back just if all its values are. -/
@[simp] theorem reads_map (m : BTreeMap κ α) :
    Reads m ↔ ∀ (k : κ) (a : α), m[k]? = some a → Reads a := by
  constructor
  · intro mapped k a found
    have stored := getElem?_of_fromValue_map mapped k
    rw [found, Option.bind_some] at stored
    exact stored.symm
  · intro each
    have all :
        (m.toList.mapM fun entry => (fromValue (toValue entry.2)).map fun a => (entry.1, a)) =
        some m.toList := by
      refine List.mapM_eq_some_iff.mpr (List.forall₂_same.mpr fun entry member => ?_)
      rw [each entry.1 entry.2 (Std.ExtTreeMap.mem_toList_iff_getElem?_eq_some.mp member)]
      rfl
    rw [Reads, fromValue_toValue_map, all, Option.map_some, BTreeMap.ofList_toList]

/-- A map is read, perhaps with other values, where all its values are. -/
theorem exists_fromValue_map {m : BTreeMap κ α}
    (each : ∀ (k : κ) (a : α), m[k]? = some a → ∃ a' : α, fromValue (toValue a) = some a') :
    ∃ m' : BTreeMap κ α, fromValue (toValue m) = some m' := by
  obtain ⟨pairs, all⟩ : ∃ pairs, (m.toList.mapM fun entry =>
      (fromValue (toValue entry.2) : Option α).map fun a => (entry.1, a)) = some pairs := by
    refine List.exists_mapM_eq_some fun entry member => ?_
    obtain ⟨a', read⟩ := each entry.1 entry.2
      (Std.ExtTreeMap.mem_toList_iff_getElem?_eq_some.mp member)
    exact ⟨(entry.1, a'), by rw [read, Option.map_some]⟩
  exact ⟨.ofList pairs compare, by rw [fromValue_toValue_map, all, Option.map_some]⟩

end Maps

end Json
