import DocTree.Json.Decode
import DocTree.Proofs.JsonText
import Mathlib.Data.List.Nodup
import Mathlib.Data.List.Perm.Basic

/-! Records as JSON objects: a record is written as its fields that have a value, and each field is
read from there again. -/
namespace DocTree

namespace Json

theorem itemsDepth_le_iff {items : List Json} {n : Nat} :
    itemsDepth items ≤ n ↔ ∀ item ∈ items, item.depth ≤ n := by
  induction items with
  | nil => simp [itemsDepth]
  | cons item rest ih => rw [itemsDepth, Nat.max_le, ih, List.forall_mem_cons]

theorem membersDepth_le_iff {members : List (String × Json)} {n : Nat} :
    membersDepth members ≤ n ↔ ∀ m ∈ members, m.2.depth ≤ n := by
  induction members with
  | nil => simp [membersDepth]
  | cons member rest ih => rw [membersDepth, Nat.max_le, ih, List.forall_mem_cons]

theorem depth_lt_of_item {item : Json} {items : List Json} (h : item ∈ items) :
    item.depth < (array items).depth := by
  have hitem := itemsDepth_le_iff.1 (Nat.le_refl _) item h
  rw [depth]
  omega

theorem depth_lt_of_member {member : String × Json} {members : List (String × Json)}
    (h : member ∈ members) : member.2.depth < (object members).depth := by
  have hmember := membersDepth_le_iff.1 (Nat.le_refl _) member h
  rw [depth]
  omega

theorem depth_array_le {items : List Json} {n : Nat} (h : ∀ item ∈ items, item.depth ≤ n) :
    (array items).depth ≤ n + 1 := by
  have hitems := itemsDepth_le_iff.2 h
  rw [depth]
  omega

theorem depth_object_le {members : List (String × Json)} {n : Nat}
    (h : ∀ m ∈ members, m.2.depth ≤ n) : (object members).depth ≤ n + 1 := by
  have hmembers := membersDepth_le_iff.2 h
  rw [depth]
  omega

/-- The members of a record: its fields without those that have no value. -/
def present (fields : List (String × Option Json)) : List (String × Json) :=
  fields.filterMap fun field => field.2.map (field.1, ·)

theorem mem_present {name : String} {value : Json} {fields : List (String × Option Json)} :
    (name, value) ∈ present fields ↔ (name, some value) ∈ fields := by
  simp only [present, List.mem_filterMap, Option.map_eq_some_iff, Prod.mk.injEq]
  constructor
  · rintro ⟨⟨_, _⟩, hfield, _, rfl, rfl, rfl⟩
    exact hfield
  · intro hfield
    exact ⟨_, hfield, _, rfl, rfl, rfl⟩

theorem names_present (fields : List (String × Option Json)) :
    ((present fields).map (·.1)).Sublist (fields.map (·.1)) := by
  induction fields with
  | nil => exact .slnil
  | cons field fields ih =>
    obtain ⟨name, value⟩ := field
    cases value with
    | none => exact .cons _ ih
    | some value => exact .cons_cons _ ih

/-- The member that tells the variant is told from the others. -/
theorem tagged?_present {tag : String} {fields : List (String × Option Json)} (value : Json)
    (h : tag ∉ fields.map (·.1)) : tagged? tag (.object ((tag, value) :: present fields)) =
    some (value, .object (present fields)) := by
  have hother : ∀ member ∈ present fields, member.1 ≠ tag := fun member hmember heq =>
    h ((names_present fields).subset (heq ▸ List.mem_map_of_mem hmember))
  have hcount : (present fields).countP (·.1 == tag) = 0 :=
    List.countP_eq_zero.2 fun member hmember => by simpa using hother member hmember
  have hrest : (present fields).filter (·.1 != tag) = present fields :=
    List.filter_eq_self.2 fun member hmember => by simpa using hother member hmember
  simp [tagged?, hcount, hrest]

theorem nat?_of_lt {n bound : Nat} (h : n < bound) : nat? bound (.integer n) = some n := by
  simp [nat?, h]

section Fields
variable {α : Type} {fields : List (String × Option Json)} (hnames : (fields.map (·.1)).Nodup)
  {name : String} {value : Json} {read : Json → Option α} {write : α → Json}
include hnames

/-- A record whose fields have different names is read field by field. -/
theorem fields?_present (names : List String) :
    fields? names (.object (present fields)) = some (present fields) := by
  have honce (name : String) : (present fields).countP (·.1 == name) ≤ 1 := by
    have hcount := List.nodup_iff_count_le_one.1 (hnames.sublist (names_present fields)) name
    rwa [List.count_eq_countP, List.countP_map] at hcount
  simp [fields?, honce]

theorem lookup_present {value : Option Json} (h : (name, value) ∈ fields) :
    (present fields).lookup name = value := by
  cases value with
  | some value =>
    exact Dict.lookup_of_mem (hnames.sublist (names_present fields)) (mem_present.2 h)
  | none =>
    refine List.lookup_eq_none_iff.2 fun member hmember => bne_iff_ne.2 fun heq => ?_
    have hfield := List.inj_on_of_nodup_map hnames h (mem_present.1 hmember) heq
    cases (Prod.mk.inj hfield).2

theorem required_present {a : α} (h : (name, some value) ∈ fields) (hread : read value = some a) :
    required (present fields) name read = some a := by
  rw [required, lookup_present hnames h, Option.bind_some, hread]

theorem required_text {s : String} (h : (name, some (.string s)) ∈ fields) :
    required (present fields) name text? = some s :=
  required_present hnames h rfl

theorem defaulted_present {a : α} (h : (name, some value) ∈ fields) (hread : read value = some a)
    (default : α) : defaulted (present fields) name default read = some a := by
  rw [defaulted, lookup_present hnames h]
  exact hread

theorem defaulted_flag {b : Bool} (h : (name, some (.bool b)) ∈ fields) (default : Bool) :
    defaulted (present fields) name default flag? = some b :=
  defaulted_present hnames h (show flag? (.bool b) = some b from rfl) default

/-- A field that is left out where it would hold its default. -/
theorem defaulted_unless {p : Bool} {a default : α}
    (h : (name, if p then none else some value) ∈ fields) (hdefault : p → a = default)
    (hread : read value = some a) : defaulted (present fields) name default read = some a := by
  rw [defaulted, lookup_present hnames h]
  cases p with
  | true => exact congrArg some (hdefault rfl).symm
  | false => exact hread

theorem optional_present {a : Option α} (h : (name, a.map write) ∈ fields)
    (hnull : ∀ a, write a ≠ .null) (hread : ∀ a' ∈ a, read (write a') = some a') :
    Json.optional (present fields) name read = some a := by
  rw [Json.optional, lookup_present hnames h]
  cases a with
  | none => rfl
  | some a =>
    rw [Option.map_some]
    split
    · next hnone => cases hnone
    · next hwritten => exact absurd (Option.some.inj hwritten) (hnull a)
    · next value hwritten => simp [← Option.some.inj hwritten, hread]

theorem optional_text {s : Option String} (h : (name, s.map .string) ∈ fields) :
    Json.optional (present fields) name text? = some s :=
  optional_present hnames h nofun fun _ _ => rfl

theorem required_count {n : UInt32} (h : (name, some (.integer n.toNat)) ∈ fields) :
    required (present fields) name (nat? UInt32.size) = some n.toNat :=
  required_present hnames h (nat?_of_lt n.toNat_lt_size)

theorem optional_count {n : Option UInt32}
    (h : (name, n.map fun n => .integer n.toNat) ∈ fields) :
    Json.optional (present fields) name (nat? UInt32.size) = some (n.map UInt32.toNat) := by
  rw [Json.optional, lookup_present hnames h]
  cases n with
  | none => rfl
  | some n => exact congrArg (Option.map some) (nat?_of_lt n.toNat_lt_size)

end Fields

section Values
variable {p : Json → Prop} {value : Json}

/-- What holds of every value that a field may have holds of every member of the record. -/
theorem forall_present {fields : List (String × Option Json)}
    (h : ∀ field ∈ fields, ∀ v ∈ field.2, p v) : ∀ m ∈ present fields, p m.2 :=
  fun _ hmember => h _ (mem_present.1 hmember) _ rfl

theorem forall_some (h : p value) : ∀ v ∈ some value, p v :=
  fun _ hv => Option.some.inj hv ▸ h

theorem forall_unless {b : Bool} (h : p value) : ∀ v ∈ (if b then none else some value), p v := by
  cases b with
  | true => nofun
  | false => exact forall_some h

theorem forall_map {α : Type} {write : α → Json} {a : Option α} (h : ∀ a, p (write a)) :
    ∀ v ∈ a.map write, p v := by
  cases a with
  | none => nofun
  | some a => exact forall_some (h a)

theorem legible_map {α : Type} {write : α → Json} {as : List α} (h : ∀ a ∈ as, Legible (write a)) :
    Legible (.array (as.map write)) :=
  .array (List.forall_mem_map.2 h)

theorem legible_dict {α : Type} {write : α → Json} {dict : Dict α}
    (h : ∀ e ∈ dict.entries, Legible (write e.2)) :
    Legible (.object (dict.entries.map fun e => (e.1, write e.2))) :=
  .object (List.forall_mem_map.2 h)

end Values

section Lists
variable {α : Type} {read : Json → Option α} {write : α → Json}

theorem mapM_map_some {β γ : Type} {read : β → Option γ} {write : γ → β} {as : List γ}
    (h : ∀ a ∈ as, read (write a) = some a) : (as.map write).mapM read = some as := by
  induction as with
  | nil => rfl
  | cons a as ih =>
    obtain ⟨ha, has⟩ := List.forall_mem_cons.1 h
    rw [List.map_cons, List.mapM_cons, ha, ih has]
    rfl

theorem list?_map {as : List α} (h : ∀ a ∈ as, read (write a) = some a) :
    list? read (.array (as.map write)) = some as :=
  mapM_map_some h

theorem list?_text (texts : List String) : list? text? (.array (texts.map .string)) = some texts :=
  list?_map fun _ _ => rfl

theorem dict?_map {dict : Dict α} (h : ∀ a, read (write a) = some a) :
    dict? read (.object (dict.entries.map fun e => (e.1, write e.2))) = some dict := by
  have hread : (dict.entries.map fun e => (e.1, write e.2)).mapM
      (fun m => (read m.2).map (m.1, ·)) = some dict.entries :=
    mapM_map_some fun e _ => by simp [h]
  rw [dict?, hread, Option.map_some, Dict.ofList_entries]

end Lists
end Json
end DocTree
