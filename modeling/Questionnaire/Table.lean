/-! # Tables

A table maps texts to values and lists its entries in the order of their keys.
Putting a key again replaces its value, so the last write wins.
-/

namespace Questionnaire

variable {α β : Type}

/-- The entries with a key put in its place. -/
def putSorted (k : String) (v : α) : List (String × α) → List (String × α)
  | [] => [(k, v)]
  | e :: es =>
    if k < e.1 then (k, v) :: e :: es
    else if k = e.1 then (k, v) :: es
    else e :: putSorted k v es

theorem mem_keys_putSorted {k x : String} {v : α} {es : List (String × α)} :
    x ∈ (putSorted k v es).map Prod.fst ↔ x = k ∨ x ∈ es.map Prod.fst := by
  induction es with
  | nil => simp [putSorted]
  | cons e es ih =>
    simp only [putSorted]
    split
    · simp
    · split
      · next h => simp [h]
      · simp only [List.map_cons, List.mem_cons, ih]
        grind

theorem lt_of_not_lt_of_ne {a b : String} (h : ¬ a < b) (hn : a ≠ b) : b < a :=
  match Std.le_total (a := a) (b := b) with
  | .inl hab => (h (Std.lt_of_le_of_ne hab hn)).elim
  | .inr hba => Std.lt_of_le_of_ne hba hn.symm

theorem sorted_putSorted (k : String) (v : α) {es : List (String × α)}
    (h : (es.map Prod.fst).Pairwise (· < ·)) :
    ((putSorted k v es).map Prod.fst).Pairwise (· < ·) := by
  induction es with
  | nil => simp [putSorted]
  | cons e es ih =>
    simp only [List.map_cons, List.pairwise_cons] at h
    simp only [putSorted]
    split
    · next hk =>
      simp only [List.map_cons, List.pairwise_cons]
      refine ⟨fun x hx => ?_, h⟩
      rcases List.mem_cons.mp hx with rfl | hx
      · exact hk
      · exact String.lt_trans hk (h.1 x hx)
    · next hk =>
      split
      · next he => subst he; simpa [List.pairwise_cons] using h
      · next hn =>
        simp only [List.map_cons, List.pairwise_cons]
        refine ⟨fun x hx => ?_, ih h.2⟩
        rcases mem_keys_putSorted.mp hx with rfl | hx
        · exact lt_of_not_lt_of_ne hk hn
        · exact h.1 x hx

theorem lookup_cons_eq (x : String) (e : String × α) (es : List (String × α)) :
    (e :: es).lookup x = if x = e.1 then some e.2 else es.lookup x := by
  by_cases h : x = e.1
  · rw [List.lookup_cons, beq_iff_eq.mpr h, if_pos h]
  · rw [List.lookup_cons, beq_eq_false_iff_ne.mpr h, if_neg h]

theorem lookup_putSorted (k x : String) (v : α) (es : List (String × α)) :
    (putSorted k v es).lookup x = if x = k then some v else es.lookup x := by
  induction es with
  | nil => simp [putSorted, lookup_cons_eq]
  | cons e es ih =>
    simp only [putSorted]
    split
    · simp [lookup_cons_eq]
    · split
      · next he => by_cases h : x = k <;> simp [lookup_cons_eq, h, ← he]
      · next hn =>
        by_cases h : x = e.1
        · simp [lookup_cons_eq, h, Ne.symm hn]
        · simp [lookup_cons_eq, h, ih]

theorem lookup_eq_none_of_lt {k : String} {es : List (String × α)}
    (h : ∀ x ∈ es.map Prod.fst, k < x) : es.lookup k = none := by
  refine List.lookup_eq_none_iff.mpr fun e he => bne_iff_ne.mpr ?_
  rintro rfl
  exact String.lt_irrefl _ (h e.1 (List.mem_map_of_mem he))

theorem lookup_eq_some_iff_of_sorted {k : String} {v : α} {es : List (String × α)}
    (h : (es.map Prod.fst).Pairwise (· < ·)) : es.lookup k = some v ↔ (k, v) ∈ es := by
  induction es with
  | nil => simp
  | cons e es ih =>
    obtain ⟨hlt, h⟩ := List.pairwise_cons.mp h
    rw [lookup_cons_eq, List.mem_cons, ← ih h]
    by_cases hk : k = e.1
    · subst hk
      simp [lookup_eq_none_of_lt hlt, Prod.ext_iff, eq_comm]
    · simp [hk, Prod.ext_iff]

theorem putSorted_of_lt {k : String} {v : α} {es : List (String × α)}
    (h : ∀ x ∈ es.map Prod.fst, x < k) : putSorted k v es = es ++ [(k, v)] := by
  induction es with
  | nil => rfl
  | cons e es ih =>
    obtain ⟨he, hes⟩ := List.forall_mem_cons.mp h
    have hlt : ¬ k < e.1 := fun hk => String.lt_irrefl _ (String.lt_trans hk he)
    have hne : k ≠ e.1 := by
      rintro rfl
      exact String.lt_irrefl _ he
    rw [putSorted, if_neg hlt, if_neg hne, ih hes, List.cons_append]

/-- Entries that are in order are put one behind the other. -/
theorem foldl_putSorted_of_sorted {t es : List (String × α)}
    (h : ((t ++ es).map Prod.fst).Pairwise (· < ·)) :
    es.foldl (fun t e => putSorted e.1 e.2 t) t = t ++ es := by
  induction es generalizing t with
  | nil => simp
  | cons e es ih =>
    have hlt : ∀ x ∈ t.map Prod.fst, x < e.1 := by
      rw [List.map_append, List.pairwise_append] at h
      exact fun x hx => h.2.2 x hx e.1 List.mem_cons_self
    rw [List.foldl_cons, putSorted_of_lt hlt, ih (by simpa using h), List.append_assoc,
      List.singleton_append]

/-- The last write of a key wins. -/
theorem lookup_foldl_putSorted (es t : List (String × α)) (x : String) :
    (es.foldl (fun t e => putSorted e.1 e.2 t) t).lookup x =
      (es.reverse.lookup x).or (t.lookup x) := by
  induction es generalizing t with
  | nil => simp
  | cons e es ih =>
    rw [List.foldl_cons, ih, lookup_putSorted, List.reverse_cons, List.lookup_append,
      lookup_cons_eq, List.lookup_nil]
    by_cases hx : x = e.1 <;> simp [hx]

structure Table (α : Type) where
  entries : List (String × α)
  sorted : (entries.map Prod.fst).Pairwise (· < ·)

namespace Table

def empty : Table α := ⟨[], .nil⟩

instance : EmptyCollection (Table α) := ⟨empty⟩

instance : Inhabited (Table α) := ⟨empty⟩

@[ext] theorem ext {s t : Table α} (h : s.entries = t.entries) : s = t := by
  cases s; cases t; simp_all

instance [DecidableEq α] : DecidableEq (Table α) := fun s t =>
  decidable_of_iff (s.entries = t.entries) ⟨ext, fun h => h ▸ rfl⟩

def put (t : Table α) (k : String) (v : α) : Table α :=
  ⟨putSorted k v t.entries, sorted_putSorted k v t.sorted⟩

def get? (t : Table α) (k : String) : Option α := t.entries.lookup k

@[simp] theorem get?_empty (k : String) : (empty : Table α).get? k = none := rfl

theorem get?_put (t : Table α) (k x : String) (v : α) :
    (t.put k v).get? x = if x = k then some v else t.get? x :=
  lookup_putSorted k x v t.entries

theorem mem_entries_iff {t : Table α} {k : String} {v : α} :
    (k, v) ∈ t.entries ↔ t.get? k = some v :=
  (lookup_eq_some_iff_of_sorted t.sorted).symm

def contains (t : Table α) (k : String) : Bool := (t.get? k).isSome

def keys (t : Table α) : List String := t.entries.map Prod.fst

theorem mem_keys_iff {t : Table α} {k : String} : k ∈ t.keys ↔ ∃ v, t.get? k = some v := by
  simp [keys, ← mem_entries_iff]

def values (t : Table α) : List α := t.entries.map Prod.snd

def size (t : Table α) : Nat := t.entries.length

def isEmpty (t : Table α) : Bool := t.entries.isEmpty

def ofList (es : List (String × α)) : Table α :=
  es.foldl (fun t e => t.put e.1 e.2) empty

theorem entries_foldl_put (es : List (String × α)) (t : Table α) :
    (es.foldl (fun t e => t.put e.1 e.2) t).entries =
      es.foldl (fun t e => putSorted e.1 e.2 t) t.entries :=
  (List.foldl_hom entries fun _ _ => rfl).symm

theorem ofList_entries (t : Table α) : ofList t.entries = t := by
  ext1
  rw [ofList, entries_foldl_put]
  exact foldl_putSorted_of_sorted t.sorted

theorem get?_ofList (es : List (String × α)) (k : String) :
    (ofList es).get? k = es.reverse.lookup k := by
  rw [get?, ofList, entries_foldl_put, lookup_foldl_putSorted]
  exact Option.or_none

theorem mem_of_mem_ofList {es : List (String × α)} {e : String × α}
    (h : e ∈ (ofList es).entries) : e ∈ es := by
  rw [← e.eta, mem_entries_iff, get?_ofList] at h
  obtain ⟨before, behind, he, -⟩ := List.lookup_eq_some_iff.mp h
  rw [← List.mem_reverse, he]
  exact List.mem_append_right _ List.mem_cons_self

/-- The table with every value changed in its place. -/
def mapWithKey (f : String → α → β) (t : Table α) : Table β :=
  ⟨t.entries.map fun e => (e.1, f e.1 e.2), by
    simpa [List.map_map, Function.comp_def] using t.sorted⟩

theorem get?_mapWithKey (f : String → α → β) (t : Table α) (k : String) :
    (t.mapWithKey f).get? k = (t.get? k).map (f k) := by
  change (t.entries.map fun e => (e.1, f e.1 e.2)).lookup k = (t.entries.lookup k).map (f k)
  induction t.entries with
  | nil => rfl
  | cons e es ih =>
    rw [List.map_cons, lookup_cons_eq, lookup_cons_eq, ih]
    by_cases h : k = e.1 <;> simp [h]

/-- The table with some entries left out. -/
def filterMap (f : String → α → Option β) (t : Table α) : Table β :=
  ⟨t.entries.filterMap fun e => (f e.1 e.2).map (e.1, ·), by
    have key : (t.entries.filterMap fun e => (f e.1 e.2).map (e.1, ·)).map Prod.fst =
        (t.entries.filter fun e => (f e.1 e.2).isSome).map Prod.fst := by
      induction t.entries with
      | nil => rfl
      | cons e es ih => cases h : f e.1 e.2 <;> simp [h, ih]
    rw [key]
    exact t.sorted.sublist (List.filter_sublist.map _)⟩

/-- The table without a key. -/
def erase (t : Table α) (k : String) : Table α :=
  t.filterMap fun x v => if x = k then none else some v

end Table

end Questionnaire
