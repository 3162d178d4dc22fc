import Mathlib

/-!
# JSON values and record decoding

A value as a JSON library holds it after parsing: numbers keep the class the
parser put them in, and an object is a finite list of named members in which the
first occurrence of a name counts. Decoders return `none` where the library
reports an error; the wording of that error is not modelled.

A record is read from an object by field name or from an array by position. The
three ways a field may be absent are kept apart, because an attacker chooses the
shape: a required field, a field with a default, and an optional field without a
default, which may be missing from an object but not from an array.
-/
namespace JsonValues
open Std

inductive Number where
  | posInt (n : ℕ)
  | negInt (n : ℕ)
  | float (literal : String)
  deriving DecidableEq, Repr

inductive Json where
  | null
  | bool (b : Bool)
  | num (n : Number)
  | str (s : String)
  | arr (items : List Json)
  | obj (members : List (String × Json))

namespace Json

def ofNat (n : ℕ) : Json := .num (.posInt n)

/-- `value[key]`: a missing member and a value of another shape read as null. -/
def get (v : Json) (key : String) : Json :=
  match v with
  | .obj members => (members.lookup key).getD .null
  | _ => .null

/-- `value.get(key).is_some()`: a member that is null is there. -/
def has (v : Json) (key : String) : Bool :=
  match v with
  | .obj members => (members.lookup key).isSome
  | _ => false

def asStr : Json → Option String
  | .str s => some s
  | _ => none

def asU64 : Json → Option ℕ
  | .num (.posInt n) => some n
  | _ => none

def asBool : Json → Option Bool
  | .bool b => some b
  | _ => none

def isNull : Json → Bool
  | .null => true
  | _ => false

/-- A member that is not there has no value of its own. -/
theorem has_of_get {v : Json} {key : String} (h : v.get key ≠ .null) : v.has key = true := by
  cases v with
  | obj members =>
      cases hlookup : members.lookup key with
      | none => simp [get, hlookup] at h
      | some value => simp [has, hlookup]
  | _ => exact absurd rfl h

end Json

/-- How one type is written to and read from a value. -/
structure Codec (α : Type) where
  encode : α → Json
  decode : Json → Option α
  decode_encode : ∀ a, decode (encode a) = some a

namespace Codec

def string : Codec String := ⟨.str, Json.asStr, fun _ => rfl⟩
def u64 : Codec ℕ := ⟨Json.ofNat, Json.asU64, fun _ => rfl⟩
def bool : Codec Bool := ⟨.bool, Json.asBool, fun _ => rfl⟩
def json : Codec Json := ⟨id, some, fun _ => rfl⟩

variable {α : Type}

private def decodeItems (c : Codec α) : List Json → Option (List α)
  | [] => some []
  | v :: vs => do
      let a ← c.decode v
      let as ← decodeItems c vs
      pure (a :: as)

private theorem decodeItems_of (c : Codec α) {β : Type} {f : β → Json} {g : β → α} {bs : List β}
    (h : ∀ b ∈ bs, c.decode (f b) = some (g b)) :
    decodeItems c (bs.map f) = some (bs.map g) := by
  induction bs with
  | nil => rfl
  | cons b bs ih =>
      have hrest := ih fun b hb => h b (List.mem_cons_of_mem _ hb)
      simp [decodeItems, h b List.mem_cons_self, hrest]

private theorem decodeItems_map (c : Codec α) (as : List α) :
    decodeItems c (as.map c.encode) = some as := by
  simpa using decodeItems_of c (g := id) fun a (_ : a ∈ as) => c.decode_encode a

def list (c : Codec α) : Codec (List α) where
  encode as := .arr (as.map c.encode)
  decode
    | .arr items => decodeItems c items
    | _ => none
  decode_encode as := decodeItems_map c as

/-- Items that are not as they would be written now are still read one by one. -/
theorem list_decode_map {c : Codec α} {β : Type} {f : β → Json} {g : β → α} {bs : List β}
    (h : ∀ b ∈ bs, c.decode (f b) = some (g b)) :
    (list c).decode (.arr (bs.map f)) = some (bs.map g) :=
  decodeItems_of c h

/-- A number as a member name: its decimal digits and nothing else. -/
def natKey (name : String) : Option ℕ := name.toNat?.filter fun n => n.repr == name

theorem natKey_repr (n : ℕ) : natKey n.repr = some n := by
  simp [natKey]

private def decodeEntries (c : Codec α) : List (String × Json) → Option (List (ℕ × α))
  | [] => some []
  | (name, v) :: members => do
      let n ← natKey name
      let a ← c.decode v
      let entries ← decodeEntries c members
      pure ((n, a) :: entries)

private theorem decodeEntries_map (c : Codec α) (entries : List (ℕ × α)) :
    decodeEntries c (entries.map fun p => (p.1.repr, c.encode p.2)) = some entries := by
  induction entries with
  | nil => rfl
  | cons p entries ih => simp [decodeEntries, natKey_repr, c.decode_encode, ih]

private theorem ofList_reverse_toList (m : ExtTreeMap ℕ α) :
    ExtTreeMap.ofList m.toList.reverse = m := by
  have hdistinct : m.toList.reverse.Pairwise fun p q => ¬compare p.1 q.1 = .eq := by
    refine List.pairwise_reverse.mpr (m.distinct_keys_toList.imp fun hpq hqp => hpq ?_)
    rw [OrientedCmp.eq_comm]
    exact hqp
  refine ExtTreeMap.ext_getElem? fun k => ?_
  cases hk : m[k]? with
  | some a =>
      refine ExtTreeMap.getElem?_ofList_of_mem ReflCmp.compare_self hdistinct ?_
      exact List.mem_reverse.mpr (ExtTreeMap.mem_toList_iff_getElem?_eq_some.mpr hk)
  | none =>
      refine ExtTreeMap.getElem?_ofList_of_contains_eq_false ?_
      rw [List.contains_eq_mem, decide_eq_false_iff_not, List.map_reverse, List.mem_reverse]
      rintro hmem
      obtain ⟨p, hp, rfl⟩ := List.mem_map.mp hmem
      rw [ExtTreeMap.mem_toList_iff_getElem?_eq_some.mp hp] at hk
      cases hk

/-- A map with numbers as keys. -/
def natMap (c : Codec α) : Codec (ExtTreeMap ℕ α) where
  encode m := .obj (m.toList.map fun p => (p.1.repr, c.encode p.2))
  decode
    | .obj members => (decodeEntries c members).map fun entries => .ofList entries.reverse
    | _ => none
  decode_encode m := by
    simp only [decodeEntries_map, Option.map_some, ofList_reverse_toList]

/-- A variant without data: its name, or an object with that one name and null. -/
def tagOf : Json → Option String
  | .str s => some s
  | .obj [(s, .null)] => some s
  | _ => none

end Codec

/-- The same object without the members of these names. -/
def Json.without (names : List String) : Json → Json
  | .obj members => .obj (members.filter fun p => decide (p.1 ∉ names))
  | v => v

/-- What a record decoder reads its fields from. -/
inductive Fields where
  | named (members : List (String × Json))
  | positional (items : List Json)

namespace Fields

/-- An array longer than the record is refused. -/
def ofJson (arity : ℕ) : Json → Option Fields
  | .obj members => some (.named members)
  | .arr items => if items.length ≤ arity then some (.positional items) else none
  | _ => none

def find (f : Fields) (index : ℕ) (name : String) : Option Json :=
  match f with
  | .named members => members.lookup name
  | .positional items => items[index]?

variable {α : Type}

def required (f : Fields) (index : ℕ) (name : String) (c : Codec α) : Option α :=
  (f.find index name).bind c.decode

def withDefault (f : Fields) (index : ℕ) (name : String) (c : Codec α) (d : α) : Option α :=
  match f.find index name with
  | none => some d
  | some v => c.decode v

/-- An optional value: null is `none`. -/
def nullable (c : Codec α) : Json → Option (Option α)
  | .null => some none
  | v => (c.decode v).map some

def optional (f : Fields) (index : ℕ) (name : String) (c : Codec α) : Option (Option α) :=
  match f, f.find index name with
  | .named _, none => some none
  | .positional _, none => none
  | _, some v => nullable c v

/-- An optional field that also has a default may be missing from an array. -/
def optionalDefault (f : Fields) (index : ℕ) (name : String) (c : Codec α) : Option (Option α) :=
  match f.find index name with
  | none => some none
  | some v => nullable c v

end Fields

/-! ## Writing records and reading them back -/

/-- Values of the type are never written as null, so an optional one can be told apart. -/
def Codec.NonNull {α : Type} (c : Codec α) : Prop := ∀ a, c.encode a ≠ .null

theorem Codec.string_nonNull : Codec.string.NonNull := fun _ => by simp [Codec.string]

theorem Codec.u64_nonNull : Codec.u64.NonNull := fun _ => by simp [Codec.u64, Json.ofNat]

section

variable {α : Type} (name key : String) (c : Codec α)

def member (a : α) : String × Json := (name, c.encode a)

/-- The members of an optional value that is left out when there is none. -/
def memberIfSome : Option α → List (String × Json)
  | none => []
  | some a => [(name, c.encode a)]

/-- The members of a list that is left out when it is empty. -/
def memberIfNonempty (as : List α) : List (String × Json) :=
  if as.isEmpty then [] else [(name, (Codec.list c).encode as)]

def encodeNullable : Option α → Json
  | none => .null
  | some a => c.encode a

theorem lookup_member (a : α) (rest : List (String × Json)) :
    (member name c a :: rest).lookup key =
      if key = name then some (c.encode a) else rest.lookup key := by
  by_cases h : key = name
  · simp [member, List.lookup, h]
  · simp [member, List.lookup, h, beq_false_of_ne h]

theorem lookup_memberIfSome (a : Option α) :
    (memberIfSome name c a).lookup key = if key == name then a.map c.encode else none := by
  cases a with
  | none => simp [memberIfSome]
  | some a => cases h : key == name <;> simp [memberIfSome, List.lookup, h]

theorem lookup_memberIfNonempty (as : List α) :
    (memberIfNonempty name c as).lookup key =
      if key == name then (if as.isEmpty then none else some ((Codec.list c).encode as))
      else none := by
  unfold memberIfNonempty
  cases as with
  | nil => simp
  | cons a as => cases h : key == name <;> simp [List.lookup, h]

variable {c}

theorem nullable_encode (h : c.NonNull) (a : α) :
    Fields.nullable c (c.encode a) = some (some a) := by
  unfold Fields.nullable
  split
  · rename_i he
    exact absurd he (h a)
  · rw [c.decode_encode]
    rfl

theorem nullable_encodeNullable (h : c.NonNull) (a : Option α) :
    Fields.nullable c (encodeNullable c a) = some a := by
  cases a with
  | none => rfl
  | some a => exact nullable_encode h a

end

/-- The value found under the name of a required field decodes to what was written. -/
theorem Fields.required_encode {α : Type} {c : Codec α} {f : Fields} {i : ℕ} {name : String}
    {a : α} (h : f.find i name = some (c.encode a)) : f.required i name c = some a := by
  simp [Fields.required, h, c.decode_encode]

theorem Fields.optionalDefault_encode {α : Type} {c : Codec α} (hc : c.NonNull) {f : Fields}
    {i : ℕ} {name : String} {a : Option α} (h : f.find i name = a.map c.encode) :
    f.optionalDefault i name c = some a := by
  cases a with
  | none => simp [Fields.optionalDefault, h]
  | some a => simp [Fields.optionalDefault, h, nullable_encode hc]

/-- An optional field without a default that was written as its value or as null. -/
theorem Fields.optional_encodeNullable {α : Type} {c : Codec α} (hc : c.NonNull) {f : Fields}
    {i : ℕ} {name : String} {a : Option α} (h : f.find i name = some (encodeNullable c a)) :
    f.optional i name c = some a := by
  cases f <;> simp [Fields.optional, h, nullable_encodeNullable hc]

theorem Fields.withDefault_encode {α : Type} {c : Codec α} {f : Fields}
    {i : ℕ} {name : String} {a d : α} (h : f.find i name = some (c.encode a)) :
    f.withDefault i name c d = some a := by
  simp [Fields.withDefault, h, c.decode_encode]

theorem Fields.withDefault_list {α : Type} {c : Codec α} {f : Fields} {i : ℕ} {name : String}
    {l : List α}
    (h : f.find i name = if l.isEmpty then none else some ((Codec.list c).encode l)) :
    f.withDefault i name (.list c) [] = some l := by
  cases l with
  | nil => simp [Fields.withDefault, h]
  | cons a l => simp [Fields.withDefault, h, (Codec.list c).decode_encode]

/-! ## Objects that lack some members -/

theorem lookup_without (names : List String) (key : String) (members : List (String × Json)) :
    (members.filter fun p => decide (p.1 ∉ names)).lookup key =
      if key ∈ names then none else members.lookup key := by
  induction members with
  | nil => simp
  | cons p members ih =>
      obtain ⟨name, v⟩ := p
      by_cases hkey : key = name
      · subst hkey
        by_cases hmem : key ∈ names
        · simpa [hmem] using ih
        · simp [hmem]
      · have hbeq : (key == name) = false := beq_false_of_ne hkey
        by_cases hmem : name ∈ names
        · simpa [hmem, List.lookup_cons, hbeq] using ih
        · simpa [hmem, List.lookup_cons, hbeq] using ih

section

variable {α : Type} {c : Codec α} {names : List String} {members : List (String × Json)} {i : ℕ}
  {name : String}

/-- The fields of an object from which members were taken. -/
def Fields.lacking (names : List String) (members : List (String × Json)) : Fields :=
  .named (members.filter fun p => decide (p.1 ∉ names))

theorem Fields.find_lacking : (lacking names members).find i name =
    if name ∈ names then none else members.lookup name :=
  lookup_without names name members

theorem Fields.required_lacking {a : α} (hname : name ∉ names)
    (h : members.lookup name = some (c.encode a)) :
    (lacking names members).required i name c = some a :=
  required_encode (by rw [find_lacking, if_neg hname, h])

/-- A field that is lacking has its default. -/
theorem Fields.withDefault_lacking {a d : α} (h : members.lookup name = some (c.encode a)) :
    (lacking names members).withDefault i name c d = some (if name ∈ names then d else a) := by
  by_cases hname : name ∈ names
  · rw [withDefault, find_lacking, if_pos hname, if_pos hname]
  · rw [if_neg hname]
    exact withDefault_encode (by rw [find_lacking, if_neg hname, h])

theorem Fields.optional_lacking (hc : c.NonNull) {a : Option α}
    (h : members.lookup name = some (encodeNullable c a)) :
    (lacking names members).optional i name c = some (if name ∈ names then none else a) := by
  by_cases hname : name ∈ names
  · have hfind : (lacking names members).find i name = none := by
      rw [find_lacking, if_pos hname]
    unfold optional
    rw [hfind, if_pos hname]
    rfl
  · rw [if_neg hname]
    exact optional_encodeNullable hc (by rw [find_lacking, if_neg hname, h])

end

end JsonValues
