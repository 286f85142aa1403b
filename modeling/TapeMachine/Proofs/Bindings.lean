import Mathlib.Data.List.Nodup
import Mathlib.Tactic.SplitIfs
import TapeMachine.Bindings

/-! Looking names up in tables. Binding a name changes that name only, and a fresh name goes to the
end of the table; where no name is bound twice, looking a name up and finding its pair in the table
are the same. Tables may bind the same names to the same values in another order. -/

namespace TapeMachine.Bindings

variable {α β : Type}

/-- The names of a table, in the order of their first binding. -/
def names (t : Bindings α) : List Text := t.entries.map Prod.fst

@[simp] theorem get?_empty (name : Text) : ({} : Bindings α).get? name = none := rfl

@[simp] theorem contains_empty (name : Text) : ({} : Bindings α).contains name = false := rfl

private theorem lookup_cons_of_ne {name first : Text} (value : α) (es : List (Text × α))
    (hne : name ≠ first) : ((first, value) :: es).lookup name = es.lookup name := by
  rw [List.lookup_cons, beq_eq_false_iff_ne.2 hne]

theorem lookup_eq_none_of_not_mem {name : Text} {es : List (Text × α)}
    (h : name ∉ es.map Prod.fst) : es.lookup name = none := by
  refine List.lookup_eq_none_iff.2 fun p hp => ?_
  rw [bne_iff_ne]
  rintro rfl
  exact h (List.mem_map.2 ⟨p, hp, rfl⟩)

theorem lookup_bindEntry (name other : Text) (value : α) (es : List (Text × α)) :
    (bindEntry name value es).lookup other = if other = name then some value else es.lookup other := by
  induction es with
  | nil =>
      rw [bindEntry]
      split_ifs with h
      · rw [h, List.lookup_cons_self]
      · rw [lookup_cons_of_ne value [] h]
  | cons e es ih =>
      obtain ⟨first, old⟩ := e
      rw [bindEntry]
      by_cases hfirst : first = name
      · subst hfirst
        rw [if_pos rfl]
        split_ifs with h
        · rw [h, List.lookup_cons_self]
        · rw [lookup_cons_of_ne value es h, lookup_cons_of_ne old es h]
      · rw [if_neg hfirst]
        by_cases h : other = first
        · subst h
          rw [List.lookup_cons_self, if_neg hfirst, List.lookup_cons_self]
        · rw [lookup_cons_of_ne old _ h, lookup_cons_of_ne old es h, ih]

theorem get?_insert (t : Bindings α) (name other : Text) (value : α) :
    (t.insert name value).get? other = if other = name then some value else t.get? other :=
  lookup_bindEntry name other value t.entries

@[simp] theorem get?_insert_self (t : Bindings α) (name : Text) (value : α) :
    (t.insert name value).get? name = some value := by
  rw [get?_insert, if_pos rfl]

theorem get?_insert_of_ne (t : Bindings α) {name other : Text} (value : α) (hne : other ≠ name) :
    (t.insert name value).get? other = t.get? other := by
  rw [get?_insert, if_neg hne]

theorem contains_iff_mem_names (t : Bindings α) (name : Text) :
    t.contains name = true ↔ name ∈ t.names := by
  rw [contains, get?, Option.isSome_iff_exists, names, List.mem_map]
  constructor
  · rintro ⟨value, hvalue⟩
    obtain ⟨before, rest, hentries, _⟩ := List.lookup_eq_some_iff.1 hvalue
    exact ⟨(name, value), by simp [hentries], rfl⟩
  · rintro ⟨⟨_, value⟩, hmem, rfl⟩
    cases hlookup : t.entries.lookup _ with
    | some found => exact ⟨found, rfl⟩
    | none => simpa using List.lookup_eq_none_iff.1 hlookup _ hmem

theorem entries_insert_of_fresh (t : Bindings α) {name : Text} (value : α)
    (hfresh : t.contains name = false) :
    (t.insert name value).entries = t.entries ++ [(name, value)] := by
  have hne : ∀ e ∈ t.entries, e.1 ≠ name := by
    intro e he hname
    have hmem : name ∈ t.names := hname ▸ List.mem_map_of_mem he
    rw [(contains_iff_mem_names t name).2 hmem] at hfresh
    cases hfresh
  change bindEntry name value t.entries = _
  generalize t.entries = es at hne
  induction es with
  | nil => rfl
  | cons e es ih =>
      obtain ⟨first, old⟩ := e
      rw [List.forall_mem_cons] at hne
      rw [bindEntry, if_neg hne.1, List.cons_append]
      exact congrArg _ (ih hne.2)

theorem map_fst_bindEntry (name : Text) (value : α) (es : List (Text × α)) :
    (bindEntry name value es).map Prod.fst =
      if name ∈ es.map Prod.fst then es.map Prod.fst else es.map Prod.fst ++ [name] := by
  induction es with
  | nil => rfl
  | cons e es ih =>
      obtain ⟨first, old⟩ := e
      by_cases hfirst : first = name
      · simp [bindEntry, hfirst]
      · have hne : name ≠ first := Ne.symm hfirst
        rw [bindEntry, if_neg hfirst, List.map_cons, ih]
        by_cases hmem : name ∈ es.map Prod.fst
        · simp only [List.map_cons, List.mem_cons, hmem, or_true, if_true]
        · simp only [List.map_cons, List.mem_cons, hmem, hne, or_self, if_false,
            List.cons_append]

/-- Binding keeps a table from binding a name twice. -/
theorem nodup_names_insert {t : Bindings α} (h : t.names.Nodup) (name : Text) (value : α) :
    (t.insert name value).names.Nodup := by
  rw [names, insert, map_fst_bindEntry]
  split_ifs with hmem
  · exact h
  · refine List.nodup_append.2 ⟨h, List.nodup_singleton name, fun other hother b hb heq => ?_⟩
    rw [heq, List.mem_singleton.1 hb] at hother
    exact hmem hother

/-- Pairs with distinct names are bound in front of what a table held before. -/
theorem get?_insertAll {pairs : List (Text × α)} (h : (pairs.map Prod.fst).Nodup) (t : Bindings α)
    (name : Text) : (t.insertAll pairs).get? name = (pairs.lookup name).or (t.get? name) := by
  induction pairs generalizing t with
  | nil => rfl
  | cons p pairs ih =>
      obtain ⟨first, value⟩ := p
      rw [List.map_cons, List.nodup_cons] at h
      change ((t.insert first value).insertAll pairs).get? name = _
      rw [ih h.2, get?_insert]
      by_cases hname : name = first
      · subst hname
        rw [lookup_eq_none_of_not_mem h.1, if_pos rfl, List.lookup_cons_self, Option.none_or, Option.some_or]
      · rw [if_neg hname, lookup_cons_of_ne value pairs hname]

/-- In a table that binds no name twice, a name has a value if and only if their pair is there. -/
theorem get?_eq_some_iff_mem {t : Bindings α} (hnodup : t.names.Nodup) {name : Text} {value : α} :
    t.get? name = some value ↔ (name, value) ∈ t.entries := by
  rw [get?]
  rw [names] at hnodup
  generalize t.entries = es at hnodup
  induction es with
  | nil => simp
  | cons e es ih =>
      obtain ⟨first, old⟩ := e
      rw [List.map_cons, List.nodup_cons] at hnodup
      by_cases h : name = first
      · subst h
        have hnot : (name, value) ∉ es := fun hmem => hnodup.1 (List.mem_map.2 ⟨_, hmem, rfl⟩)
        rw [List.lookup_cons_self, List.mem_cons]
        simp [hnot, eq_comm]
      · rw [lookup_cons_of_ne old es h, ih hnodup.2, List.mem_cons]
        simp [h]

/-- A table without one of its names. -/
def without (x : Text) (t : Bindings α) : Bindings α := ⟨t.entries.filter fun p => p.1 ≠ x⟩

theorem get?_without {x name : Text} (hne : name ≠ x) (t : Bindings α) :
    (t.without x).get? name = t.get? name := by
  rw [get?, get?, without]
  induction t.entries with
  | nil => rfl
  | cons p es ih =>
      obtain ⟨first, value⟩ := p
      by_cases hfirst : first = x
      · rw [List.filter_cons_of_neg (by simpa using hfirst), ih, List.lookup_cons,
          beq_eq_false_iff_ne.2 (hfirst ▸ hne)]
      · rw [List.filter_cons_of_pos (by simpa using hfirst), List.lookup_cons, List.lookup_cons, ih]

theorem get?_congr_of_without {x name : Text} (hne : name ≠ x) {t u : Bindings α}
    (h : t.without x = u.without x) : t.get? name = u.get? name := by
  rw [← get?_without hne, h, get?_without hne]

theorem without_insert_self (x : Text) (value : α) (t : Bindings α) :
    (t.insert x value).without x = t.without x := by
  rw [without, without, insert]
  congr 1
  induction t.entries with
  | nil => simp [bindEntry]
  | cons p es ih =>
      obtain ⟨first, old⟩ := p
      by_cases hfirst : first = x
      · simp [bindEntry, hfirst]
      · rw [bindEntry, if_neg hfirst, List.filter_cons_of_pos (by simpa using hfirst),
          List.filter_cons_of_pos (by simpa using hfirst), ih]

theorem without_insert {x name : Text} (hne : name ≠ x) (value : α) (t : Bindings α) :
    (t.insert name value).without x = (t.without x).insert name value := by
  rw [without, without, insert, insert]
  congr 1
  induction t.entries with
  | nil => simp [bindEntry, hne]
  | cons p es ih =>
      obtain ⟨first, old⟩ := p
      rw [bindEntry]
      by_cases hfirst : first = name
      · subst hfirst
        rw [if_pos rfl, List.filter_cons_of_pos (by simpa using hne),
          List.filter_cons_of_pos (by simpa using hne), bindEntry, if_pos rfl]
      · rw [if_neg hfirst]
        by_cases hx : first = x
        · rw [List.filter_cons_of_neg (by simpa using hx), List.filter_cons_of_neg (by simpa using hx),
            ih]
        · rw [List.filter_cons_of_pos (by simpa using hx), List.filter_cons_of_pos (by simpa using hx),
            bindEntry, if_neg hfirst, ih]

theorem without_insertAll {x : Text} {pairs : List (Text × α)} (h : ∀ p ∈ pairs, p.1 ≠ x)
    (t : Bindings α) : (t.insertAll pairs).without x = (t.without x).insertAll pairs := by
  induction pairs generalizing t with
  | nil => rfl
  | cons p pairs ih =>
      rw [List.forall_mem_cons] at h
      change ((t.insert p.1 p.2).insertAll pairs).without x =
        ((t.without x).insert p.1 p.2).insertAll pairs
      rw [ih h.2, without_insert h.1]

/-- A table with its values changed. -/
def map (f : α → β) (t : Bindings α) : Bindings β := ⟨t.entries.map fun p => (p.1, f p.2)⟩

theorem get?_map (f : α → β) (t : Bindings α) (name : Text) :
    (t.map f).get? name = (t.get? name).map f := by
  rw [get?, get?, map]
  induction t.entries with
  | nil => rfl
  | cons p es ih =>
      rw [List.map_cons, List.lookup_cons, List.lookup_cons]
      cases name == p.1 with
      | true => rfl
      | false => exact ih

theorem contains_map (f : α → β) (t : Bindings α) (name : Text) :
    (t.map f).contains name = t.contains name := by
  rw [contains, contains, get?_map, Option.isSome_map]

theorem map_insert (f : α → β) (t : Bindings α) (name : Text) (value : α) :
    (t.insert name value).map f = (t.map f).insert name (f value) := by
  rw [map, map, insert, insert]
  congr 1
  induction t.entries with
  | nil => rfl
  | cons p es ih =>
      obtain ⟨first, old⟩ := p
      rw [bindEntry, List.map_cons, bindEntry]
      by_cases hfirst : first = name
      · rw [if_pos hfirst, if_pos hfirst, List.map_cons]
      · rw [if_neg hfirst, if_neg hfirst, List.map_cons, ih]

theorem mem_entries_insert {t : Bindings α} {name : Text} {value : α} {p : Text × α}
    (h : p ∈ (t.insert name value).entries) : p = (name, value) ∨ p ∈ t.entries := by
  change p ∈ bindEntry name value t.entries at h
  generalize t.entries = es at h ⊢
  induction es with
  | nil => exact .inl (List.mem_singleton.1 h)
  | cons q es ih =>
      obtain ⟨first, old⟩ := q
      rw [bindEntry] at h
      split_ifs at h with hfirst
      · exact (List.mem_cons.1 h).imp id (List.mem_cons_of_mem _)
      · rcases List.mem_cons.1 h with rfl | h
        · exact .inr List.mem_cons_self
        · exact (ih h).imp id (List.mem_cons_of_mem _)

theorem mem_entries_of_get? {t : Bindings α} {name : Text} {value : α}
    (h : t.get? name = some value) : (name, value) ∈ t.entries := by
  obtain ⟨before, rest, hentries, _⟩ := List.lookup_eq_some_iff.1 h
  simp [hentries]

/-! ### Tables in another order -/

variable {t u : Bindings α}

/-- The last value that is given to a name. -/
def finalValue? (pairs : List (Text × α)) (name : Text) : Option α := pairs.reverse.lookup name

theorem get?_insertAll_final (t : Bindings α) (pairs : List (Text × α)) (name : Text) :
    (t.insertAll pairs).get? name = (finalValue? pairs name).or (t.get? name) := by
  induction pairs generalizing t with
  | nil => rfl
  | cons p pairs ih =>
      have hlast : finalValue? (p :: pairs) name =
          (finalValue? pairs name).or (if name = p.1 then some p.2 else none) := by
        rw [finalValue?, List.reverse_cons, List.lookup_append, List.lookup_cons, List.lookup_nil]
        split_ifs with hname
        · rw [beq_iff_eq.2 hname]
          rfl
        · rw [beq_eq_false_iff_ne.2 hname]
          rfl
      change ((t.insert p.1 p.2).insertAll pairs).get? name = _
      rw [ih, hlast, get?_insert, Option.or_assoc]
      split_ifs <;> rfl

theorem insertAll_append (t : Bindings α) (pairs more : List (Text × α)) :
    t.insertAll (pairs ++ more) = (t.insertAll pairs).insertAll more :=
  List.foldl_append

theorem nodup_names_empty : ({} : Bindings α).names.Nodup := List.nodup_nil

theorem nodup_names_insertAll (h : t.names.Nodup) (pairs : List (Text × α)) :
    (t.insertAll pairs).names.Nodup := by
  induction pairs generalizing t with
  | nil => exact h
  | cons p pairs ih => exact ih (nodup_names_insert h p.1 p.2)

/-- Two tables that bind the same names to the same values, each name once, in any order. -/
structure Agree (t u : Bindings α) : Prop where
  nodup : t.names.Nodup
  nodup' : u.names.Nodup
  get? : ∀ name, t.get? name = u.get? name

namespace Agree

theorem insert (h : t.Agree u) (name : Text) (value : α) :
    (t.insert name value).Agree (u.insert name value) where
  nodup := nodup_names_insert h.nodup name value
  nodup' := nodup_names_insert h.nodup' name value
  get? other := by rw [get?_insert, get?_insert, h.get?]

theorem insertAll (h : t.Agree u) (pairs : List (Text × α)) :
    (t.insertAll pairs).Agree (u.insertAll pairs) where
  nodup := nodup_names_insertAll h.nodup pairs
  nodup' := nodup_names_insertAll h.nodup' pairs
  get? name := by rw [get?_insertAll_final, get?_insertAll_final, h.get?]

theorem contains (h : t.Agree u) (name : Text) : t.contains name = u.contains name := by
  rw [Bindings.contains, Bindings.contains, h.get?]

end Agree

/-- Pairs that give every name the same value in the end give tables that agree. -/
theorem agree_insertAll {pairs more : List (Text × α)}
    (h : ∀ name, finalValue? pairs name = finalValue? more name) :
    (insertAll {} pairs).Agree (insertAll {} more) where
  nodup := nodup_names_insertAll nodup_names_empty pairs
  nodup' := nodup_names_insertAll nodup_names_empty more
  get? name := by rw [get?_insertAll_final, get?_insertAll_final, h]

end TapeMachine.Bindings
