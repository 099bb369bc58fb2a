import Mathlib.Data.List.Nodup
import Mathlib.Data.List.Forall2

/-!
# JSON values and the records they hold

JSON values as a deserializer sees them, with object members in the order of the text, and the
readers that record deserialization is made of: a member is looked up by name, a name that occurs
twice is an error, and a missing or null optional member reads as nothing.

* `Json`, `Json.Number`: values.
* `asString`, `asU64`, `asBool`, `nullable`: readers of values.
* `unique`, `required`, `optional`: readers of members.
* `present`, **`unique_present`**: an object written from a table of optional members reads back
  each of them; `required_present`, `optional_present`.
-/

/-- A JSON value. -/
inductive Json where
  | null
  | bool (b : Bool)
  | posInt (n : UInt64)
  | negInt (n : Int64)
  | float (bits : UInt64)
  | str (s : String)
  | arr (items : List Json)
  | obj (members : List (String × Json))

namespace Json

variable {α : Type}

/-! ## Readers of values -/

/-- A string. -/
def asString : Json → Option String
  | str s => some s
  | _ => none

/-- A boolean. -/
def asBool : Json → Option Bool
  | bool b => some b
  | _ => none

/-- An unsigned integer. -/
def asU64 : Json → Option UInt64
  | posInt n => some n
  | _ => none

/-- A value that may be null. -/
def nullable (read : Json → Option α) : Json → Option (Option α)
  | null => some none
  | j => (read j).map some

/-! ## Readers of members -/

/-- The value of a member that may be missing; a second one is an error. -/
def unique (members : List (String × Json)) (name : String) : Option (Option Json) :=
  match members.filter fun m => m.1 = name with
  | [] => some none
  | [m] => some (some m.2)
  | _ => none

/-- A member that must be there. -/
def required (read : Json → Option α) (members : List (String × Json)) (name : String) :
    Option α := do
  match ← unique members name with
  | none => none
  | some j => read j

/-- A member that may be missing or null. -/
def optional (read : Json → Option α) (members : List (String × Json)) (name : String) :
    Option (Option α) := do
  match ← unique members name with
  | none => some none
  | some j => nullable read j

/-- The string members of a record; a deserializer also takes them as a sequence. -/
def stringRecord (names : List String) : Json → Option (List String)
  | obj members => names.mapM (required asString members)
  | arr items => if items.length = names.length then items.mapM asString else none
  | _ => none

/-! ## Objects written from tables -/

/-- The members of a table that are there. -/
def present (table : List (String × Option Json)) : List (String × Json) :=
  table.filterMap fun m => m.2.map (m.1, ·)

theorem mem_present {table : List (String × Option Json)} {m : String × Json}
    (h : m ∈ present table) : m.1 ∈ table.map Prod.fst := by
  obtain ⟨e, he, hm⟩ := List.mem_filterMap.mp h
  obtain ⟨j, -, rfl⟩ := Option.map_eq_some_iff.mp hm
  exact List.mem_map.mpr ⟨e, he, rfl⟩

theorem filter_present_of_notMem {table : List (String × Option Json)} {name : String}
    (h : name ∉ table.map Prod.fst) :
    (present table).filter (fun m => m.1 = name) = [] := by
  refine List.filter_eq_nil_iff.mpr fun m hm hn => h ?_
  rw [← of_decide_eq_true hn]
  exact mem_present hm

/-- **A member of a table reads back.** -/
theorem unique_present : ∀ {table : List (String × Option Json)} {name : String}
    {o : Option Json}, (table.map Prod.fst).Nodup → (name, o) ∈ table →
      unique (present table) name = some o
  | [], _, _, _, h => by cases h
  | (n, o') :: table, name, o, hnd, h => by
    have hnd' := List.nodup_cons.mp hnd
    rcases List.mem_cons.mp h with he | h
    · cases he
      have hnil := filter_present_of_notMem hnd'.1
      cases o' with
      | none => simp only [unique, present, List.filterMap_cons, Option.map_none]; rw [← present, hnil]
      | some j =>
        simp only [unique, present, List.filterMap_cons, Option.map_some, List.filter_cons,
          decide_true, if_true]
        rw [← present, hnil]
    · have hne : n ≠ name := fun e => hnd'.1 (e ▸ List.mem_map.mpr ⟨_, h, rfl⟩)
      have ih := unique_present hnd'.2 h
      cases o' with
      | none => simpa only [unique, present, List.filterMap_cons, Option.map_none] using ih
      | some j =>
        simpa only [unique, present, List.filterMap_cons, Option.map_some, List.filter_cons,
          hne, decide_false, Bool.false_eq_true, if_false] using ih

theorem required_present {table : List (String × Option Json)} {name : String} {j : Json}
    (hnd : (table.map Prod.fst).Nodup) (h : (name, some j) ∈ table) (read : Json → Option α) :
    required read (present table) name = read j := by
  simp only [required, unique_present hnd h, Option.bind_eq_bind, Option.bind_some]

theorem optional_present {table : List (String × Option Json)} {name : String} {o : Option α}
    {write : α → Json} {read : Json → Option α} (hnd : (table.map Prod.fst).Nodup)
    (h : (name, o.map write) ∈ table) (hnull : ∀ a, write a ≠ null)
    (hread : ∀ a, read (write a) = some a) : optional read (present table) name = some o := by
  simp only [optional, unique_present hnd h, Option.bind_eq_bind, Option.bind_some]
  cases o with
  | none => rfl
  | some a =>
    simp only [Option.map_some]
    have := hread a
    cases hw : write a with
    | null => exact absurd hw (hnull a)
    | _ => rw [hw] at this; simp only [nullable, this, Option.map_some]

/-- A record of string members. -/
def writeRecord (names values : List String) : Json :=
  obj ((names.zip values).map fun m => (m.1, str m.2))

theorem present_map_some (l : List (String × String)) :
    present (l.map fun m => (m.1, some (str m.2))) = l.map fun m => (m.1, str m.2) := by
  rw [present, List.filterMap_map]
  exact congrFun (List.filterMap_eq_map (f := fun m : String × String => (m.1, str m.2))) l

/-- All elements are read, in order. -/
theorem mapM_eq_some {β : Type} {f : α → Option β} : ∀ {l : List α} {l' : List β},
    l.mapM f = some l' ↔ List.Forall₂ (fun a b => f a = some b) l l'
  | [], l' => by
    rw [List.mapM_nil, List.forall₂_nil_left_iff]
    exact ⟨fun h => (Option.some.inj h).symm, fun h => congrArg some h.symm⟩
  | a :: l, l' => by
    rw [List.mapM_cons, List.forall₂_cons_left_iff]
    simp only [Option.bind_eq_bind, Option.bind_eq_some_iff, Option.pure_def, Option.some.injEq]
    constructor
    · rintro ⟨b, hb, bs, hbs, rfl⟩
      exact ⟨b, bs, hb, mapM_eq_some.mp hbs, rfl⟩
    · rintro ⟨b, bs, hb, hbs, rfl⟩
      exact ⟨b, hb, bs, mapM_eq_some.mpr hbs, rfl⟩

/-- What was read comes from some element. -/
theorem exists_of_mem_mapM {β : Type} {f : α → Option β} {l : List α} {l' : List β} {b : β}
    (h : l.mapM f = some l') (hb : b ∈ l') : ∃ a ∈ l, f a = some b := by
  obtain ⟨i, rfl⟩ := List.get_of_mem hb
  have hall := mapM_eq_some.mp h
  have hi : i.1 < l.length := by rw [hall.length_eq]; exact i.2
  exact ⟨l.get ⟨i, hi⟩, List.get_mem l _, hall.get hi i.2⟩

/-- What was read is what the elements read as. -/
theorem mem_mapM {β : Type} {f : α → Option β} {l : List α} {l' : List β} {b : β}
    (h : l.mapM f = some l') : b ∈ l' ↔ ∃ a ∈ l, f a = some b := by
  refine ⟨exists_of_mem_mapM h, ?_⟩
  rintro ⟨a, ha, hab⟩
  obtain ⟨i, rfl⟩ := List.get_of_mem ha
  have hall := mapM_eq_some.mp h
  have hi : i.1 < l'.length := by rw [← hall.length_eq]; exact i.2
  have hread : f (l.get i) = some (l'.get ⟨i.1, hi⟩) := hall.get i.2 hi
  rw [hab] at hread
  rw [Option.some.inj hread]
  exact List.get_mem l' _

theorem mapM_required {members : List (String × Json)} {names values : List String}
    (hlen : names.length = values.length)
    (h : ∀ m ∈ List.zip names values, required asString members m.1 = some m.2) :
    names.mapM (required asString members) = some values :=
  mapM_eq_some.mpr (List.forall₂_iff_zip.mpr ⟨hlen, fun hm => h _ hm⟩)

/-- **A record of strings reads back.** -/
theorem stringRecord_writeRecord {names values : List String} (hnd : names.Nodup)
    (hlen : names.length = values.length) :
    stringRecord names (writeRecord names values) = some values := by
  change (List.mapM _ names : Option (List String)) = some values
  refine mapM_required hlen fun m hm => ?_
  rw [← present_map_some, required_present (j := str m.2)]
  · rfl
  · rw [List.map_map]
    change ((names.zip values).map Prod.fst).Nodup
    rwa [List.map_fst_zip (Nat.le_of_eq hlen)]
  · exact List.mem_map.mpr ⟨m, hm, rfl⟩

end Json
