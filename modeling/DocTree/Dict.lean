/-! Values under text keys, in ascending order of the keys. -/
namespace DocTree

/-- Entries whose keys ascend strictly, so each key has at most one value. -/
structure Dict (α : Type) where
  entries : List (String × α)
  ascending : entries.Pairwise fun a b => a.1 < b.1

namespace Dict
variable {α β : Type}

def empty : Dict α := ⟨[], .nil⟩

instance : EmptyCollection (Dict α) := ⟨empty⟩
instance : Inhabited (Dict α) := ⟨empty⟩

/-- Puts a value in front of the first greater key, or in the place of an equal one. -/
def place (key : String) (value : α) : List (String × α) → List (String × α)
  | [] => [(key, value)]
  | (k, v) :: rest =>
    if key < k then (key, value) :: (k, v) :: rest
    else if k < key then (k, v) :: place key value rest
    else (key, value) :: rest

theorem eq_of_not_lt {a b : String} (h₁ : ¬ a < b) (h₂ : ¬ b < a) : a = b :=
  String.le_antisymm (String.not_lt.1 h₂) (String.not_lt.1 h₁)

theorem mem_place {key : String} {value : α} {entries : List (String × α)} {e : String × α}
    (h : e ∈ place key value entries) : e = (key, value) ∨ e ∈ entries := by
  induction entries with
  | nil => simpa [place] using h
  | cons head rest ih =>
    obtain ⟨k, v⟩ := head
    unfold place at h
    split at h
    · simpa using h
    · split at h
      · rcases List.mem_cons.1 h with h | h
        · exact .inr (by simp [h])
        · exact (ih h).imp id (List.mem_cons_of_mem _)
      · rcases List.mem_cons.1 h with h | h
        · exact .inl h
        · exact .inr (List.mem_cons_of_mem _ h)

theorem pairwise_place (key : String) (value : α) {entries : List (String × α)}
    (h : entries.Pairwise fun a b => a.1 < b.1) :
    (place key value entries).Pairwise fun a b => a.1 < b.1 := by
  induction entries with
  | nil => simp [place]
  | cons head rest ih =>
    obtain ⟨k, v⟩ := head
    obtain ⟨hk, hrest⟩ := List.pairwise_cons.1 h
    unfold place
    split
    · next hlt =>
      refine List.pairwise_cons.2 ⟨fun e he => ?_, h⟩
      rcases List.mem_cons.1 he with rfl | he
      · exact hlt
      · exact String.lt_trans hlt (hk e he)
    · next hnlt =>
      split
      · next hlt =>
        refine List.pairwise_cons.2 ⟨fun e he => ?_, ih hrest⟩
        rcases mem_place he with rfl | he
        · exact hlt
        · exact hk e he
      · next hngt =>
        have := eq_of_not_lt hnlt hngt
        subst this
        exact List.pairwise_cons.2 ⟨hk, hrest⟩

/-- The dictionary in which `key` has `value`, whatever it had before. -/
def insert (d : Dict α) (key : String) (value : α) : Dict α :=
  ⟨place key value d.entries, pairwise_place key value d.ascending⟩

def get? (d : Dict α) (key : String) : Option α := d.entries.lookup key

def contains (d : Dict α) (key : String) : Bool := (d.get? key).isSome

def isEmpty (d : Dict α) : Bool := d.entries.isEmpty

def keys (d : Dict α) : List String := d.entries.map (·.1)

/-- Inserts from left to right, so the last value of a repeated key stays. -/
def ofList (entries : List (String × α)) : Dict α :=
  entries.foldl (fun d e => d.insert e.1 e.2) empty

/-- Puts the value that `change` makes from the present one. -/
def alter (d : Dict α) (key : String) (change : Option α → α) : Dict α :=
  d.insert key (change (d.get? key))

/-- The dictionary of the images, under the same keys. -/
def map (f : α → β) (d : Dict α) : Dict β :=
  ⟨d.entries.map fun e => (e.1, f e.2), List.pairwise_map.2 d.ascending⟩

theorem ext {d e : Dict α} (h : d.entries = e.entries) : d = e := by
  cases d; cases e; simp_all

theorem lookup_cons_eq {κ : Type} [BEq κ] [LawfulBEq κ] [DecidableEq κ] (k : κ) (e : κ × α)
    (rest : List (κ × α)) : (e :: rest).lookup k = if k = e.1 then some e.2 else rest.lookup k := by
  rw [List.lookup_cons]
  by_cases hk : k = e.1
  · simp [hk]
  · rw [beq_false_of_ne hk, if_neg hk]

theorem lookup_place (key k : String) (value : α) (entries : List (String × α)) :
    (place key value entries).lookup k = if k = key then some value else entries.lookup k := by
  induction entries with
  | nil => simp [place, lookup_cons_eq]
  | cons head rest ih =>
    obtain ⟨first, v⟩ := head
    unfold place
    split
    · simp [lookup_cons_eq]
    · next hnlt =>
      split
      · next hlt =>
        have hne : key ≠ first := by
          rintro rfl
          exact hnlt hlt
        rw [lookup_cons_eq, ih, lookup_cons_eq]
        by_cases hk : k = key <;> simp [hk, hne]
      · next hngt =>
        have hsame := eq_of_not_lt hnlt hngt
        subst hsame
        by_cases hk : k = key <;> simp [lookup_cons_eq, hk]

@[simp] theorem get?_empty (key : String) : (∅ : Dict α).get? key = none := rfl

theorem get?_insert (d : Dict α) (key k : String) (value : α) :
    (d.insert key value).get? k = if k = key then some value else d.get? k :=
  lookup_place key k value d.entries

theorem get?_alter (d : Dict α) (key k : String) (change : Option α → α) :
    (d.alter key change).get? k = if k = key then some (change (d.get? k)) else d.get? k := by
  rw [alter, get?_insert]
  split <;> simp [*]

theorem get?_map (f : α → β) (d : Dict α) (k : String) : (d.map f).get? k = (d.get? k).map f := by
  have hlookup (entries : List (String × α)) :
      (entries.map fun e => (e.1, f e.2)).lookup k = (entries.lookup k).map f := by
    induction entries with
    | nil => rfl
    | cons head rest ih =>
      rw [List.map_cons, lookup_cons_eq, lookup_cons_eq, ih]
      split <;> rfl
  exact hlookup d.entries

/-- Of repeated keys the last one counts. -/
theorem get?_ofList (entries : List (String × α)) (k : String) :
    (ofList entries).get? k = entries.reverse.lookup k := by
  have hfold (d : Dict α) : (entries.foldl (fun d e => d.insert e.1 e.2) d).get? k =
      (entries.reverse.lookup k).or (d.get? k) := by
    induction entries generalizing d with
    | nil => simp
    | cons head rest ih =>
      rw [List.foldl_cons, ih, get?_insert, List.reverse_cons, List.lookup_append, Option.or_assoc,
        lookup_cons_eq]
      split <;> simp
  exact (hfold ∅).trans (by simp)

/-- Where keys are not repeated, each entry is found. -/
theorem lookup_of_mem {κ : Type} [BEq κ] [LawfulBEq κ] [DecidableEq κ] {entries : List (κ × α)}
    (h : (entries.map (·.1)).Nodup) {e : κ × α} (he : e ∈ entries) : entries.lookup e.1 = some e.2 := by
  induction entries with
  | nil => cases he
  | cons head rest ih =>
    obtain ⟨hhead, hrest⟩ := List.nodup_cons.1 h
    rw [lookup_cons_eq]
    obtain rfl | he := List.mem_cons.1 he
    · exact if_pos rfl
    · have hne : e.1 ≠ head.1 := fun heq => hhead (List.mem_map.2 ⟨e, he, heq⟩)
      rw [if_neg hne, ih hrest he]

theorem pairwise_keys (d : Dict α) : d.keys.Pairwise (· < ·) := List.pairwise_map.2 d.ascending

theorem nodup_keys (d : Dict α) : d.keys.Nodup :=
  (pairwise_keys d).imp fun hlt => String.ne_of_lt hlt

theorem mem_entries_iff {d : Dict α} {key : String} {value : α} :
    (key, value) ∈ d.entries ↔ d.get? key = some value := by
  constructor
  · exact fun h => lookup_of_mem (nodup_keys d) h
  · intro h
    obtain ⟨before, rest, hentries, -⟩ := List.lookup_eq_some_iff.1 h
    rw [hentries]
    exact List.mem_append_right _ List.mem_cons_self

theorem mem_keys_iff {d : Dict α} {key : String} :
    key ∈ d.keys ↔ ∃ value, d.get? key = some value := by
  simp only [keys, List.mem_map, ← mem_entries_iff]
  constructor
  · rintro ⟨⟨_, value⟩, he, rfl⟩
    exact ⟨value, he⟩
  · rintro ⟨value, he⟩
    exact ⟨_, he, rfl⟩

/-- A key behind all others goes to the end. -/
theorem place_of_lt {key : String} {value : α} {entries : List (String × α)}
    (h : ∀ e ∈ entries, e.1 < key) : place key value entries = entries ++ [(key, value)] := by
  induction entries with
  | nil => rfl
  | cons e rest ih =>
    obtain ⟨he, hrest⟩ := List.forall_mem_cons.1 h
    rw [place, if_neg (String.lt_asymm he), if_pos he, ih hrest, List.cons_append]

/-- A dictionary is made of its entries. -/
theorem ofList_entries (d : Dict α) : ofList d.entries = d := by
  have hfold (rest : List (String × α)) (built : Dict α)
      (h : (built.entries ++ rest).Pairwise fun a b => a.1 < b.1) :
      (rest.foldl (fun d e => d.insert e.1 e.2) built).entries = built.entries ++ rest := by
    induction rest generalizing built with
    | nil => simp
    | cons e rest ih =>
      have hlast : (built.insert e.1 e.2).entries = built.entries ++ [e] :=
        place_of_lt fun b hb => (List.pairwise_append.1 h).2.2 b hb e List.mem_cons_self
      have hbuilt := ih (built.insert e.1 e.2) (by rwa [hlast, List.append_assoc])
      rw [List.foldl_cons, hbuilt, hlast, List.append_assoc, List.singleton_append]
  exact ext (hfold d.entries ∅ d.ascending)

theorem eq_empty_of_isEmpty {d : Dict α} (h : d.isEmpty) : d = ∅ :=
  ext (List.isEmpty_iff.1 h)

end Dict
end DocTree
