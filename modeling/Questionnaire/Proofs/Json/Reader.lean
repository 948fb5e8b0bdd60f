import Questionnaire.Json.Reader
import Questionnaire.Proofs.Json.Source

/-! # Reading printed values

A printed value is read back with the members of its objects in order, unless it nests more
containers than the reader allows: then that is the error. A value whose members are in
order already is read back as it is.
-/

namespace Questionnaire

namespace Json

theorem ofMembers_eq (ms : List (String × Json)) :
    ofMembers ms = .object (Table.ofList ms).entries := by
  rw [ofMembers, Table.ofList, Table.entries_foldl_put]
  rfl

theorem sortedItems_eq (vs : List Json) : sortedItems vs = vs.map sorted := by
  induction vs with
  | nil => rfl
  | cons v vs ih => rw [sortedItems, ih, List.map_cons]

theorem sortedMembers_eq (ms : List (String × Json)) :
    sortedMembers ms = ms.map fun m => (m.1, m.2.sorted) := by
  induction ms with
  | nil => rfl
  | cons m ms ih => rw [sortedMembers, ih, List.map_cons]

theorem sorted_array (vs : List Json) : (array vs).sorted = .array (vs.map sorted) := by
  rw [sorted, sortedItems_eq]

theorem sorted_object (ms : List (String × Json)) :
    (object ms).sorted = .object (Table.ofList (ms.map fun m => (m.1, m.2.sorted))).entries := by
  rw [sorted, sortedMembers_eq, ofMembers_eq]

theorem sorted_object_entries {t : Table Json} (h : ∀ e ∈ t.entries, e.2.sorted = e.2) :
    (object t.entries).sorted = .object t.entries := by
  have he : ∀ e ∈ t.entries, (e.1, e.2.sorted) = e := fun e he => by rw [h e he]
  rw [sorted_object, List.map_congr_left he, List.map_id', Table.ofList_entries]

theorem get?_sorted_object (ms : List (String × Json)) (key : String) :
    (object ms).sorted.get? key = (ms.reverse.lookup key).map sorted := by
  rw [sorted_object]
  change (Table.ofList _).get? key = _
  rw [Table.get?_ofList, ← List.map_reverse]
  induction ms.reverse with
  | nil => rfl
  | cons m ms ih =>
    rw [List.map_cons, lookup_cons_eq, lookup_cons_eq, ih]
    split <;> rfl

theorem exists_of_mem_sorted {ms : List (String × Json)} {m : String × Json}
    (h : m ∈ (Table.ofList (ms.map fun m => (m.1, m.2.sorted))).entries) :
    ∃ m' ∈ ms, m = (m'.1, m'.2.sorted) := by
  obtain ⟨m', hm, rfl⟩ := List.mem_map.mp (Table.mem_of_mem_ofList h)
  exact ⟨m', hm, rfl⟩

theorem Plain.sorted {v : Json} (h : Plain v) : Plain v.sorted := by
  induction h with
  | null => exact .null
  | bool b => exact .bool b
  | integer hi => exact .integer hi
  | string s => exact .string s
  | array h ih =>
    rw [sorted_array]
    exact .array (by simpa using ih)
  | object h ih =>
    rw [sorted_object]
    refine .object fun m hm => ?_
    obtain ⟨m', hm', rfl⟩ := exists_of_mem_sorted hm
    exact ih m' hm'

theorem Plain.sorted_sorted {v : Json} (h : Plain v) : v.sorted.sorted = v.sorted := by
  induction h with
  | null | bool b | integer hi | string s => rfl
  | array h ih =>
    rw [sorted_array, sorted_array, List.map_map]
    exact congrArg _ (List.map_congr_left ih)
  | object h ih =>
    rw [sorted_object]
    refine sorted_object_entries fun m hm => ?_
    obtain ⟨m', hm', rfl⟩ := exists_of_mem_sorted hm
    exact ih m' hm'

mutual

def depth : Json → Nat
  | .array vs => depthItems vs + 1
  | .object ms => depthMembers ms + 1
  | _ => 0

def depthItems : List Json → Nat
  | [] => 0
  | v :: vs => max v.depth (depthItems vs)

def depthMembers : List (String × Json) → Nat
  | [] => 0
  | (_, v) :: ms => max v.depth (depthMembers ms)

end

theorem depthItems_le_iff {vs : List Json} {n : Nat} :
    depthItems vs ≤ n ↔ ∀ v ∈ vs, v.depth ≤ n := by
  induction vs with
  | nil => simp [depthItems]
  | cons v vs ih => rw [depthItems, Nat.max_le, ih, List.forall_mem_cons]

theorem depthMembers_le_iff {ms : List (String × Json)} {n : Nat} :
    depthMembers ms ≤ n ↔ ∀ m ∈ ms, m.2.depth ≤ n := by
  induction ms with
  | nil => simp [depthMembers]
  | cons m ms ih => rw [depthMembers, Nat.max_le, ih, List.forall_mem_cons]

theorem Plain.depth_sorted_le {v : Json} (h : Plain v) : v.sorted.depth ≤ v.depth := by
  induction h with
  | null | bool b | integer hi | string s => exact Nat.le_refl 0
  | array h ih =>
    rw [sorted_array, depth, depth, Nat.add_le_add_iff_right, depthItems_le_iff]
    refine List.forall_mem_map.mpr fun v hv => ?_
    exact Nat.le_trans (ih v hv) (depthItems_le_iff.mp (Nat.le_refl _) v hv)
  | object h ih =>
    rw [sorted_object, depth, depth, Nat.add_le_add_iff_right, depthMembers_le_iff]
    intro m hm
    obtain ⟨m', hm', rfl⟩ := exists_of_mem_sorted hm
    exact Nat.le_trans (ih m' hm') (depthMembers_le_iff.mp (Nat.le_refl _) m' hm')

namespace Source

/-- What is read of a value where `n` containers may still be opened. -/
def readBack (n : Nat) (v : Json) : Except Error Json :=
  if v.depth ≤ n then .ok v.sorted else .error (.fault .tooDeep)

theorem itemsAsJson_ofItems {vs : List Json} {n : Nat}
    (h : ∀ v ∈ vs, asJson (n + 1) (ofJson v) = readBack n v) :
    itemsAsJson (n + 1) (ofItems vs) =
      if depthItems vs ≤ n then .ok (sortedItems vs) else .error (.fault .tooDeep) := by
  induction vs with
  | nil => rfl
  | cons v vs ih =>
    obtain ⟨hv, hvs⟩ := List.forall_mem_cons.mp h
    rw [ofItems, itemsAsJson, hv, ih hvs, readBack, depthItems]
    simp only [Nat.max_le]
    by_cases h : v.depth ≤ n <;> by_cases h' : depthItems vs ≤ n <;>
      simp [h, h', sortedItems, bind, Except.bind, pure, Except.pure]

theorem membersAsJson_ofMembers {ms : List (String × Json)} {n : Nat}
    (h : ∀ m ∈ ms, asJson (n + 1) (ofJson m.2) = readBack n m.2) :
    membersAsJson (n + 1) (ofMembers ms) =
      if depthMembers ms ≤ n then .ok (sortedMembers ms) else .error (.fault .tooDeep) := by
  induction ms with
  | nil => rfl
  | cons m ms ih =>
    obtain ⟨hm, hms⟩ := List.forall_mem_cons.mp h
    rw [ofMembers, membersAsJson, hm, ih hms, readBack, depthMembers]
    simp only [Nat.max_le]
    by_cases h : m.2.depth ≤ n <;> by_cases h' : depthMembers ms ≤ n <;>
      simp [h, h', sortedMembers, literalText, StringLiteral.ofText, bind, Except.bind, pure,
        Except.pure]

theorem enter_add_two (n : Nat) : enter (n + 2) = .ok (n + 1) := by
  rw [enter, if_neg (by omega)]
  rfl

/-- A value is read back with its members in order if it is not too deep. -/
theorem asJson_ofJson {v : Json} (h : Plain v) (n : Nat) :
    asJson (n + 1) (ofJson v) = readBack n v := by
  -- For every `n`, since one container less may be opened inside of each.
  induction h generalizing n with
  | null => rfl
  | bool b => rfl
  | integer hi => simp only [ofJson, asJson, value?_ofInt hi]; rfl
  | string s => rfl
  | @array vs h ih =>
    rw [ofJson, asJson, readBack, depth, sorted]
    cases n with
    | zero => rfl
    | succ n =>
      have hvs := itemsAsJson_ofItems fun v hv => ih v hv n
      by_cases hd : depthItems vs ≤ n <;>
        simp [enter_add_two, bind, Except.bind, hvs, hd, close, pure, Except.pure]
  | @object ms h ih =>
    rw [ofJson, asJson, readBack, depth, sorted]
    cases n with
    | zero => rfl
    | succ n =>
      have hms := membersAsJson_ofMembers fun m hm => ih m hm n
      by_cases hd : depthMembers ms ≤ n <;>
        simp [enter_add_two, bind, Except.bind, hms, hd, close, pure, Except.pure]

theorem foldlM_ofMembers {α : Type} {reader : Nat → Source → Except Error α} {write : α → Json}
    {fits : α → Prop} [DecidablePred fits] {n : Nat} {bad : Error} {es : List (String × α)}
    (h : ∀ e ∈ es, reader n (ofJson (write e.2)) = if fits e.2 then .ok e.2 else .error bad)
    (t : Table α) :
    (ofMembers (es.map fun e => (e.1, write e.2))).foldlM (fun t (l, s) => do
      let k ← literalText l
      return t.put k (← reader n s)) t =
      if ∀ e ∈ es, fits e.2 then .ok (es.foldl (fun t e => t.put e.1 e.2) t) else .error bad := by
  induction es generalizing t with
  | nil => rfl
  | cons e es ih =>
    obtain ⟨he, hes⟩ := List.forall_mem_cons.mp h
    have hstep : (do
        let k ← literalText (.ofText e.1)
        return t.put k (← reader n (ofJson (write e.2)))) =
        if fits e.2 then .ok (t.put e.1 e.2) else .error bad := by
      rw [he]
      split <;> rfl
    simp only [List.map_cons, ofMembers, List.foldlM_cons, hstep]
    by_cases hf : fits e.2
    · simp only [hf, if_true, bind, Except.bind, List.forall_mem_cons, true_and, List.foldl_cons]
      exact ih hes _
    · simp [hf, bind, Except.bind]

theorem asTable_ofJson {α : Type} {reader : Nat → Source → Except Error α} {write : α → Json}
    {fits : α → Prop} [DecidablePred fits] {n : Nat} {bad : Error} {t : Table α}
    (h : ∀ e ∈ t.entries,
      reader (n + 1) (ofJson (write e.2)) = if fits e.2 then .ok e.2 else .error bad) :
    asTable reader (n + 2) (ofJson (.object (t.entries.map fun e => (e.1, write e.2)))) =
      if ∀ e ∈ t.entries, fits e.2 then .ok t else .error bad := by
  have hput : t.entries.foldl (fun t e => t.put e.1 e.2) Table.empty = t := t.ofList_entries
  have hfold := foldlM_ofMembers h Table.empty
  rw [hput] at hfold
  rw [ofJson, asTable, enter_add_two]
  simp only [bind, Except.bind] at hfold ⊢
  rw [hfold]
  by_cases hf : ∀ e ∈ t.entries, fits e.2
  · rw [if_pos hf]
    rfl
  · rw [if_neg hf]

end Source

/-- The text of a value is read as its tree is. -/
theorem read_text {α : Type} (reader : Nat → Source → Except Error α) {v : Json} (h : Plain v) :
    read reader v.text = reader nestingLimit (.ofJson v) := by
  have hs : Source.scan v.text.toList = (.ofJson v, []) := by
    rw [text, String.toList_ofList, Source.scan_chars h]
  rw [read, hs]
  change (reader nestingLimit (.ofJson v) >>= _) = _
  cases reader nestingLimit (.ofJson v) <;> rfl

end Json

end Questionnaire
