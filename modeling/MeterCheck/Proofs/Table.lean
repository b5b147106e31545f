import MeterCheck.Table
import Mathlib.Data.List.Perm.Basic

/-!
# Tables of counts

* `Table.Sorted.ext`: a table is told by its look-ups;
* `Table.lookup_counts`, `Table.mem_counts`: what a table of counts has for each name;
* `Table.mem_names`, `Table.pairwise_names`: the names of a list, each once and in order;
* `Table.counts_perm`, `Table.names_perm`: the order of the names that are counted does not matter;
* `Table.spelled_counts`: the names are found again, as often as they were counted.
-/

namespace MeterCheck.Table

section

variable {α : Type} {t t' : Table α}

/-- No entry of a table in order comes before its first one. -/
theorem lookup_eq_none_of_head {e : String × α} {name : String} (h : Sorted (e :: t))
    (hname : name < e.1) : List.lookup name (e :: t) = none := by
  apply lookup_eq_none_of_lt
  intro e' he'
  rcases List.mem_cons.1 he' with rfl | he'
  · exact hname
  · exact String.lt_trans hname ((List.pairwise_cons.1 h).1 e' he')

theorem Sorted.lookup_tail {e : String × α} (h : Sorted (e :: t)) : t.lookup e.1 = none :=
  lookup_eq_none_of_lt (List.pairwise_cons.1 h).1

theorem Sorted.ext (h : t.Sorted) (h' : t'.Sorted)
    (hlookup : ∀ name, t.lookup name = t'.lookup name) : t = t' := by
  induction t generalizing t' with
  | nil =>
    cases t' with
    | nil => rfl
    | cons e' t' =>
      have hfound := hlookup e'.1
      rw [lookup_cons_ite, if_pos rfl] at hfound
      cases hfound
  | cons e t ih =>
    cases t' with
    | nil =>
      have hfound := hlookup e.1
      rw [lookup_cons_ite, if_pos rfl] at hfound
      cases hfound
    | cons e' t' =>
      obtain ⟨name, a⟩ := e
      obtain ⟨name', a'⟩ := e'
      have hle : ¬ name < name' := by
        intro hlt
        have hfound := hlookup name
        rw [lookup_eq_none_of_head h' hlt, lookup_cons_ite, if_pos rfl] at hfound
        cases hfound
      have hge : ¬ name' < name := by
        intro hlt
        have hfound := hlookup name'
        rw [lookup_eq_none_of_head h hlt, lookup_cons_ite, if_pos rfl] at hfound
        cases hfound
      obtain rfl : name = name' := String.le_antisymm (String.not_lt.1 hge) (String.not_lt.1 hle)
      have hfirst := hlookup name
      rw [lookup_cons_ite, lookup_cons_ite, if_pos rfl, if_pos rfl] at hfirst
      have hrest : t = t' := by
        apply ih (List.pairwise_cons.1 h).2 (List.pairwise_cons.1 h').2
        intro n
        by_cases hn : n = name
        · rw [hn, h.lookup_tail, h'.lookup_tail]
        · have hfound := hlookup n
          rwa [lookup_cons_ite, lookup_cons_ite, if_neg hn, if_neg hn] at hfound
      rw [hrest, Option.some.inj hfirst]

/-- The entries of a table in order are what is found under their names. -/
theorem Sorted.mem_iff (h : t.Sorted) {name : String} {a : α} :
    (name, a) ∈ t ↔ t.lookup name = some a := by
  refine ⟨fun hmem => ?_, mem_of_lookup⟩
  induction t with
  | nil => cases hmem
  | cons e t ih =>
    obtain ⟨name', a'⟩ := e
    obtain ⟨hlt, hrest⟩ := List.pairwise_cons.1 h
    rw [lookup_cons_ite]
    rcases List.mem_cons.1 hmem with heq | htail
    · obtain ⟨rfl, rfl⟩ := Prod.mk.inj heq
      rw [if_pos rfl]
    · have hne : name ≠ name' := by
        rintro rfl
        exact String.lt_irrefl name (hlt (name, a) htail)
      rw [if_neg hne, ih hrest htail]

end

variable {ns ns' : List String}

/-- The entry of a name is the number of its occurrences, if it has any. -/
theorem lookup_counts (ns : List String) (name : String) :
    (counts ns).lookup name = if name ∈ ns then some (ns.count name) else none := by
  suffices hfold : ∀ t : Table Nat, t.Sorted →
      (ns.foldl (fun t n => t.upsert n fun k => k.getD 0 + 1) t).lookup name =
        if name ∈ ns then some ((t.lookup name).getD 0 + ns.count name) else t.lookup name by
    simpa [counts] using hfold [] List.Pairwise.nil
  induction ns with
  | nil => simp
  | cons n ns ih =>
    intro t ht
    rw [List.foldl_cons, ih _ (sorted_upsert n _ ht), lookup_upsert n _ ht]
    by_cases hn : name = n
    · subst hn
      by_cases hmem : name ∈ ns
      · simp only [hmem, ↓reduceIte, Option.getD_some, List.mem_cons_self, List.count_cons_self]
        congr 1
        omega
      · simp [hmem, List.count_eq_zero_of_not_mem hmem]
    · simp [hn, List.count_cons_of_ne (Ne.symm hn)]

theorem mem_counts {name : String} {n : Nat} :
    (name, n) ∈ counts ns ↔ 0 < n ∧ n = ns.count name := by
  rw [(sorted_counts ns).mem_iff, lookup_counts]
  by_cases hname : name ∈ ns
  · have hpos := List.count_pos_iff.2 hname
    rw [if_pos hname, Option.some.injEq]
    omega
  · have hzero := List.count_eq_zero_of_not_mem hname
    rw [if_neg hname]
    constructor
    · intro h
      cases h
    · omega

theorem mem_names {name : String} : name ∈ names ns ↔ name ∈ ns := by
  rw [names, List.mem_map]
  constructor
  · rintro ⟨⟨name, n⟩, he, rfl⟩
    obtain ⟨hpos, rfl⟩ := mem_counts.1 he
    exact List.count_pos_iff.1 hpos
  · intro hname
    exact ⟨(name, ns.count name), mem_counts.2 ⟨List.count_pos_iff.2 hname, rfl⟩, rfl⟩

theorem pairwise_names (ns : List String) : (names ns).Pairwise (· < ·) :=
  List.pairwise_map.2 (sorted_counts ns)

theorem counts_perm (h : ns.Perm ns') : counts ns = counts ns' := by
  apply (sorted_counts ns).ext (sorted_counts ns')
  intro name
  rw [lookup_counts, lookup_counts, h.count_eq]
  simp only [h.mem_iff]

theorem names_perm (h : ns.Perm ns') : names ns = names ns' := by
  rw [names, names, counts_perm h]

/-- Each name as often as it was counted. -/
def spelled (t : Table Nat) : List String := t.flatMap fun e => List.replicate e.2 e.1

/-- Counting a name once more spells it once more. -/
theorem spelled_upsert (name : String) (t : Table Nat) :
    (spelled (t.upsert name fun n => n.getD 0 + 1)).Perm (name :: spelled t) := by
  unfold spelled
  induction t with
  | nil => rfl
  | cons e rest ih =>
    obtain ⟨n, k⟩ := e
    rw [upsert]
    by_cases hlt : name < n
    · rw [if_pos hlt, List.flatMap_cons]
      rfl
    · rw [if_neg hlt]
      by_cases hname : name = n
      · rw [if_pos hname, hname, List.flatMap_cons, List.flatMap_cons, Option.getD_some,
          List.replicate_succ]
        rfl
      · rw [if_neg hname, List.flatMap_cons, List.flatMap_cons]
        exact (ih.append_left _).trans List.perm_middle

theorem spelled_counts (ns : List String) : (spelled (counts ns)).Perm ns := by
  suffices hfold : ∀ t : Table Nat,
      (spelled (ns.foldl (fun t n => t.upsert n fun k => k.getD 0 + 1) t)).Perm
        (ns ++ spelled t) by
    have hall := hfold []
    rwa [show spelled [] = [] from rfl, List.append_nil] at hall
  induction ns with
  | nil => exact fun t => .refl _
  | cons n ns ih =>
    intro t
    rw [List.foldl_cons]
    exact (ih _).trans (((spelled_upsert n t).append_left ns).trans List.perm_middle)

end MeterCheck.Table
