/-!
# Tables

Lists of named entries with the names strictly increasing, in the order of their characters.

* `upsert`: sets the entry of a name from the one already there;
* `ofList`: a table of pairs in any order, where the last entry of a name wins;
* `counts`, `names`: how often each name of a list occurs, and which names do;
* `sorted_upsert`, `lookup_upsert`: the names stay in order, and only the entry of the given name
  changes.
-/

namespace MeterCheck

/-- A list of named entries; every operation below keeps the names strictly increasing. -/
abbrev Table (α : Type) := List (String × α)

namespace Table

/-- Sets the entry of `name` to `f` of the one already there. -/
def upsert {α : Type} (name : String) (f : Option α → α) : Table α → Table α
  | [] => [(name, f none)]
  | (n, a) :: rest =>
    if name < n then (name, f none) :: (n, a) :: rest
    else if name = n then (n, f (some a)) :: rest
    else (n, a) :: upsert name f rest

/-- The names are strictly increasing. -/
def Sorted {α : Type} (t : Table α) : Prop := t.Pairwise fun a b => a.1 < b.1

/-- The pairs as a table; the last entry of a name wins. -/
def ofList {α : Type} (pairs : List (String × α)) : Table α :=
  pairs.foldl (fun t (name, a) => t.upsert name fun _ => a) []

/-- Each name of the list with the number of its occurrences. -/
def counts (names : List String) : Table Nat :=
  names.foldl (fun t name => t.upsert name fun n => n.getD 0 + 1) []

/-- The different names of the list in order. -/
def names (ns : List String) : List String := (counts ns).map Prod.fst

section
variable {α : Type}

theorem mem_names_upsert (name : String) (f : Option α → α) (t : Table α) (n : String) :
    n ∈ (t.upsert name f).map Prod.fst ↔ n = name ∨ n ∈ t.map Prod.fst := by
  induction t with
  | nil => simp [upsert]
  | cons e rest ih =>
    obtain ⟨m, a⟩ := e
    by_cases hlt : name < m
    · simp [upsert, hlt]
    · by_cases heq : name = m
      · subst heq
        simp [upsert]
      · simp only [upsert, hlt, heq, ↓reduceIte, List.map_cons, List.mem_cons, ih]
        exact or_left_comm

theorem sorted_upsert (name : String) (f : Option α → α) {t : Table α} (h : t.Sorted) :
    (t.upsert name f).Sorted := by
  induction t with
  | nil => simp [upsert, Sorted]
  | cons e rest ih =>
    obtain ⟨m, a⟩ := e
    obtain ⟨hm, hrest⟩ := List.pairwise_cons.1 h
    by_cases hlt : name < m
    · simp only [upsert, hlt, ↓reduceIte]
      refine List.pairwise_cons.2 ⟨fun b hb => ?_, h⟩
      rcases List.mem_cons.1 hb with rfl | hb
      · exact hlt
      · exact String.lt_trans hlt (hm b hb)
    · by_cases heq : name = m
      · subst heq
        simp only [upsert, hlt, ↓reduceIte]
        exact List.pairwise_cons.2 ⟨hm, hrest⟩
      · simp only [upsert, hlt, heq, ↓reduceIte]
        refine List.pairwise_cons.2 ⟨fun b hb => ?_, ih hrest⟩
        have hmem : b.1 ∈ (upsert name f rest).map Prod.fst := List.mem_map_of_mem hb
        rcases (mem_names_upsert name f rest b.1).1 hmem with hb | hb
        · rw [hb]
          exact Std.lt_of_le_of_ne (String.not_lt.1 hlt) (Ne.symm heq)
        · obtain ⟨c, hc, hcb⟩ := List.mem_map.1 hb
          exact hcb ▸ hm c hc

theorem lookup_cons_ite (n m : String) (a : α) (t : Table α) :
    List.lookup n ((m, a) :: t) = if n = m then some a else t.lookup n := by
  rw [List.lookup_cons]
  by_cases h : n = m
  · simp [h]
  · rw [beq_false_of_ne h, if_neg h]

theorem mem_of_lookup {name : String} {a : α} {pairs : List (String × α)}
    (h : pairs.lookup name = some a) : (name, a) ∈ pairs := by
  obtain ⟨before, after, rfl, -⟩ := List.lookup_eq_some_iff.1 h
  exact List.mem_append_right before List.mem_cons_self

theorem lookup_eq_none_of_lt {name : String} {t : Table α} (h : ∀ e ∈ t, name < e.1) :
    t.lookup name = none := by
  induction t with
  | nil => rfl
  | cons e rest ih =>
    have hne : name ≠ e.1 := fun he => String.lt_irrefl e.1 (he ▸ h e (by simp))
    rw [lookup_cons_ite, if_neg hne]
    exact ih fun e he => h e (by simp [he])

/-- Only the entry of the given name changes. -/
theorem lookup_upsert (name : String) (f : Option α → α) {t : Table α} (h : t.Sorted)
    (n : String) :
    (t.upsert name f).lookup n = if n = name then some (f (t.lookup name)) else t.lookup n := by
  induction t with
  | nil => simp [upsert, lookup_cons_ite]
  | cons e rest ih =>
    obtain ⟨m, a⟩ := e
    obtain ⟨hm, hrest⟩ := List.pairwise_cons.1 h
    by_cases hlt : name < m
    · have hnone : List.lookup name ((m, a) :: rest) = none := by
        refine lookup_eq_none_of_lt fun e he => ?_
        rcases List.mem_cons.1 he with rfl | he
        · exact hlt
        · exact String.lt_trans hlt (hm e he)
      rw [hnone]
      simp [upsert, hlt, lookup_cons_ite]
    · by_cases heq : name = m
      · subst heq
        by_cases hn : n = name <;> simp [upsert, lookup_cons_ite, hn]
      · by_cases hn : n = name
        · subst hn
          simp [upsert, hlt, heq, lookup_cons_ite, ih hrest]
        · by_cases hnm : n = m
          · subst hnm
            simp [upsert, hlt, heq, hn]
          · simp [upsert, hlt, heq, hn, hnm, lookup_cons_ite, ih hrest]

theorem mem_of_mem_upsert {name : String} {a : α} {t : Table α} {e : String × α}
    (h : e ∈ t.upsert name fun _ => a) : e = (name, a) ∨ e ∈ t := by
  induction t with
  | nil => exact .inl (List.mem_singleton.1 h)
  | cons e' rest ih =>
    obtain ⟨m, b⟩ := e'
    rw [upsert] at h
    split at h
    · exact List.mem_cons.1 h
    · split at h
      · rcases List.mem_cons.1 h with rfl | h
        · rename_i heq
          exact .inl (by rw [heq])
        · exact .inr (List.mem_cons_of_mem _ h)
      · rcases List.mem_cons.1 h with rfl | h
        · exact .inr List.mem_cons_self
        · exact (ih h).imp_right (List.mem_cons_of_mem _)

/-- A table of pairs has no other entries. -/
theorem mem_of_mem_ofList {pairs : List (String × α)} {e : String × α} (h : e ∈ ofList pairs) :
    e ∈ pairs := by
  suffices hfold : ∀ t : Table α,
      e ∈ pairs.foldl (fun t (name, a) => t.upsert name fun _ => a) t → e ∈ pairs ∨ e ∈ t from
    (hfold [] h).resolve_right (by simp)
  clear h
  induction pairs with
  | nil => exact fun _ h => .inr h
  | cons p rest ih =>
    intro t h
    rcases ih _ h with h | h
    · exact .inl (List.mem_cons_of_mem _ h)
    · rcases mem_of_mem_upsert h with rfl | h
      · exact .inl List.mem_cons_self
      · exact .inr h

end

theorem sorted_ofList {α : Type} (pairs : List (String × α)) : (ofList pairs).Sorted := by
  suffices h : ∀ t : Table α, t.Sorted →
      (pairs.foldl (fun t (name, a) => t.upsert name fun _ => a) t).Sorted from
    h [] List.Pairwise.nil
  induction pairs with
  | nil => exact fun _ h => h
  | cons p rest ih => exact fun t h => ih _ (sorted_upsert p.1 _ h)

theorem sorted_counts (names : List String) : (counts names).Sorted := by
  suffices h : ∀ t : Table Nat, t.Sorted →
      (names.foldl (fun t name => t.upsert name fun n => n.getD 0 + 1) t).Sorted from
    h [] List.Pairwise.nil
  induction names with
  | nil => exact fun _ h => h
  | cons n rest ih => exact fun t h => ih _ (sorted_upsert n _ h)

end Table

end MeterCheck
