import Questionnaire.Outline
import Questionnaire.Terminology
import Questionnaire.Proofs.Json.Reader
import Questionnaire.Proofs.Spec.Grammar

/-! # Reading what was written

The entry of a question is read as that question. The text of an outline or a terminology
that has been put together entry by entry is read as it, unless an entry is nested so deep
that no document can hold it.
-/

namespace Questionnaire

open Json (Plain)

theorem Json.Plain.texts (ss : List String) : Plain (ofTexts ss) := by
  refine .array fun v hv => ?_
  obtain ⟨s, -, rfl⟩ := List.mem_map.mp hv
  exact .string s

theorem Json.Plain.textMembers (es : List (String × String)) : Plain (ofTextMembers es) := by
  refine .object fun m hm => ?_
  obtain ⟨e, -, rfl⟩ := List.mem_map.mp hm
  exact .string e.2

theorem Json.sorted_ofTexts (ss : List String) : (ofTexts ss).sorted = ofTexts ss := by
  rw [ofTexts, sorted_array, List.map_map]
  rfl

theorem Json.sorted_ofTextMembers (t : Table String) :
    (ofTextMembers t.entries).sorted = ofTextMembers t.entries := by
  refine sorted_object_entries (t := t.mapWithKey fun _ s => .string s) fun m hm => ?_
  obtain ⟨e, -, rfl⟩ := List.mem_map.mp hm
  rfl

theorem Json.depth_ofTexts_le (ss : List String) : (ofTexts ss).depth ≤ 1 := by
  rw [ofTexts, depth, Nat.add_le_add_iff_right (n := 1) (k := 0), depthItems_le_iff]
  exact List.forall_mem_map.mpr fun _ _ => Nat.le_refl 0

theorem Json.depth_ofTextMembers_le (es : List (String × String)) :
    (ofTextMembers es).depth ≤ 1 := by
  rw [ofTextMembers, depth, Nat.add_le_add_iff_right (n := 1) (k := 0), depthMembers_le_iff]
  exact List.forall_mem_map.mpr fun _ _ => Nat.le_refl 0

namespace FormatSpec

theorem plain_toJson (f : FormatSpec) : Plain f.toJson := by
  cases f with
  | select multiple options =>
    exact .object (by simpa using ⟨.string _, .bool multiple, .texts options⟩)
  | text => exact .object (by simpa using .string _)

theorem depth_toJson_le (f : FormatSpec) : f.toJson.depth ≤ 2 := by
  cases f with
  | select multiple options =>
    have ho := Json.depth_ofTexts_le options
    simpa [toJson, Json.depth, Json.depthMembers, Nat.max_le, Json.ofTexts] using ho
  | text => exact Nat.le_succ 1

theorem written_toJson (f : FormatSpec) : Written f.toJson.sorted f := by
  cases f with
  | select multiple options =>
    have ho : (toJson (select multiple options)).sorted.get? "options" =
        some (.ofTexts options) := by
      rw [toJson, Json.get?_sorted_object]
      exact congrArg some (Json.sorted_ofTexts options)
    exact .select (Json.get?_sorted_object _ _) (Json.get?_sorted_object _ _ ▸ .given multiple)
      (ho ▸ .given options)
  | text => exact .text (Json.get?_sorted_object _ _)

end FormatSpec

namespace QuestionSpec

theorem plain_toJson (q : QuestionSpec) : Plain q.toJson := by
  refine .object ?_
  cases q.description with
  | none => simpa using ⟨.string _, q.format.plain_toJson, .textMembers _⟩
  | some d => simpa using ⟨.string _, .string d, q.format.plain_toJson, .textMembers _⟩

theorem written_toJson (q : QuestionSpec) : Written q.toJson.sorted q := by
  obtain ⟨title, description, format, next⟩ := q
  refine ⟨?_, ?_, ⟨format.toJson.sorted, ?_, format.written_toJson⟩, next.entries, ?_, ?_⟩
  · cases description <;> exact Json.get?_sorted_object _ _
  · rw [toJson, Json.get?_sorted_object]
    cases description with
    | none => exact .absent
    | some d => exact .given (some d)
  · cases description <;> exact Json.get?_sorted_object _ _
  · rw [← Json.sorted_ofTextMembers]
    cases description <;> exact Json.get?_sorted_object _ _
  · exact next.ofList_entries.symm

theorem ofJson_toJson (q : QuestionSpec) : ofJson q.toJson.sorted = .ok q :=
  ofJson_eq_ok_iff.mpr q.written_toJson

theorem depth_toJson_le (q : QuestionSpec) : q.toJson.depth ≤ 3 := by
  have hf := q.format.depth_toJson_le
  have hn := Json.depth_ofTextMembers_le q.next.entries
  rw [toJson, Json.depth, Nat.add_le_add_iff_right (n := 1) (k := 2), Json.depthMembers_le_iff]
  cases q.description with
  | none => simpa using ⟨Nat.zero_le 2, hf, Nat.le_succ_of_le hn⟩
  | some d => simpa using ⟨Nat.zero_le 2, Nat.zero_le 2, hf, Nat.le_succ_of_le hn⟩

end QuestionSpec

namespace Outline

open Json.Source

theorem plain_toJson {o : Outline} (h : ∀ e ∈ o.questions.entries, e.2.Plain) :
    Plain o.toJson :=
  .object (by simpa using ⟨.string _, .object (by simpa using h)⟩)

/-- An entry that is not nested too deep for its place in a document. -/
def Fits (entry : Json) : Prop := entry.depth + 2 < Json.nestingLimit

instance : DecidablePred Fits := fun _ => inferInstanceAs (Decidable (_ < _))

theorem fits_iff {entry : Json} : Fits entry ↔ entry.depth ≤ 125 := by
  rw [Fits, Json.nestingLimit]
  omega

theorem depth_toJson_lt_iff (o : Outline) :
    o.toJson.depth < Json.nestingLimit ↔ ∀ e ∈ o.questions.entries, Fits e.2 := by
  have hdepth : o.toJson.depth = Json.depthMembers o.questions.entries + 2 := by
    simp only [toJson, Json.depth, Json.depthMembers, Nat.max_zero, Nat.zero_max]
  have hlimit : o.toJson.depth < Json.nestingLimit ↔
      Json.depthMembers o.questions.entries ≤ 125 := by
    rw [hdepth, Json.nestingLimit]
    omega
  simp only [hlimit, fits_iff, Json.depthMembers_le_iff]

theorem readBack_eq_of_sorted {entry : Json} (h : entry.sorted = entry) :
    readBack 125 entry = if Fits entry then .ok entry else .error (.fault .tooDeep) := by
  simp only [readBack, h, fits_iff]

/-- An outline is read back unless an entry is too deep for the place it stands in. -/
theorem ofText_toJson {o : Outline} (hp : ∀ e ∈ o.questions.entries, e.2.Plain)
    (hs : ∀ e ∈ o.questions.entries, e.2.sorted = e.2) :
    ofText o.toJson.text =
      if ∀ e ∈ o.questions.entries, Fits e.2 then .ok o else .error (.fault .tooDeep) := by
  -- The document and its table of questions are two of the containers that may be open.
  have hread : ∀ e ∈ o.questions.entries, asJson 126 (ofJson (id e.2)) =
      if Fits e.2 then .ok e.2 else .error (.fault .tooDeep) := fun e he =>
    (asJson_ofJson (hp e he) 125).trans (readBack_eq_of_sorted (hs e he))
  have htable := asTable_ofJson hread
  simp only [id, Prod.eta, List.map_id'] at htable
  rw [ofText, Json.read_text _ (plain_toJson hp)]
  change shape.read 128 (.object [(.ofText "start", .string (.ofText o.start)),
    (.ofText "questions", ofJson (.object o.questions.entries))] none) = _
  by_cases hf : ∀ e ∈ o.questions.entries, Fits e.2
  · rw [if_pos hf] at htable ⊢
    simp [Shape.read, Shape.readMembers, shape, enter_add_two, literalText,
      Json.StringLiteral.ofText, asString, htable, close, bind, Except.bind, pure, Except.pure]
  · rw [if_neg hf] at htable ⊢
    simp [Shape.read, Shape.readMembers, shape, enter_add_two, literalText,
      Json.StringLiteral.ofText, asString, htable, bind, Except.bind, pure, Except.pure]

/-- One call of a builder: a question, or an entry as it was authored. -/
inductive Call where
  | question (id : String) (spec : QuestionSpec)
  | raw (id : String) (entry : Json)

namespace Call

def id : Call → String
  | question id _ => id
  | raw id _ => id

def entry : Call → Json
  | question _ spec => spec.toJson.sorted
  | raw _ entry => entry.sorted

def apply (o : Outline) : Call → Outline
  | question id spec => o.withQuestion id spec
  | raw id entry => o.withEntry id entry

theorem apply_eq (o : Outline) (c : Call) :
    apply o c = { o with questions := o.questions.put c.id c.entry } := by
  cases c <;> rfl

end Call

def built (start : String) (calls : List Call) : Outline :=
  calls.foldl Call.apply ⟨start, ∅⟩

theorem built_eq (start : String) (calls : List Call) :
    built start calls = ⟨start, Table.ofList (calls.map fun c => (c.id, c.entry))⟩ := by
  have hfold (o : Outline) : calls.foldl Call.apply o = ⟨o.start,
      (calls.map fun c => (c.id, c.entry)).foldl (fun t e => t.put e.1 e.2) o.questions⟩ := by
    induction calls generalizing o with
    | nil => rfl
    | cons c calls ih =>
      rw [List.foldl_cons, ih, Call.apply_eq]
      rfl
  exact hfold ⟨start, ∅⟩

def last? (calls : List Call) (id : String) : Option Call := calls.reverse.find? (·.id = id)

theorem last?_id {calls : List Call} {id : String} {c : Call} (h : last? calls id = some c) :
    c.id = id := by
  simpa using List.find?_some h

theorem mem_of_last? {calls : List Call} {id : String} {c : Call} (h : last? calls id = some c) :
    c ∈ calls :=
  List.mem_reverse.mp (List.mem_of_find?_eq_some h)

/-- The last write of an id wins. -/
theorem get?_built (start : String) (calls : List Call) (id : String) :
    (built start calls).questions.get? id = (last? calls id).map Call.entry := by
  rw [built_eq, Table.get?_ofList, ← List.map_reverse, last?]
  induction calls.reverse with
  | nil => rfl
  | cons c calls ih =>
    rw [List.map_cons, lookup_cons_eq, List.find?_cons, ih]
    by_cases h : c.id = id
    · simp [h]
    · simp [h, Ne.symm h]

theorem exists_last? {start : String} {calls : List Call} {e : String × Json}
    (h : e ∈ (built start calls).questions.entries) :
    ∃ c, last? calls e.1 = some c ∧ c.entry = e.2 := by
  rw [← e.eta, Table.mem_entries_iff, get?_built] at h
  simpa using h

theorem depth_toJson_built_lt_iff (start : String) (calls : List Call) :
    (built start calls).toJson.depth < Json.nestingLimit ↔
      ∀ id entry, last? calls id = some (.raw id entry) → Fits entry.sorted := by
  rw [depth_toJson_lt_iff]
  constructor
  · intro hf id entry hl
    refine hf (id, entry.sorted) (Table.mem_entries_iff.mpr ?_)
    rw [get?_built, hl]
    rfl
  · intro hf e he
    obtain ⟨c, hl, hc⟩ := exists_last? he
    rw [← hc]
    cases c with
    | question id spec =>
      have hd := Nat.le_trans spec.plain_toJson.depth_sorted_le spec.depth_toJson_le
      exact fits_iff.mpr (Nat.le_trans hd (by decide))
    | raw id entry =>
      obtain rfl : id = e.1 := last?_id hl
      exact hf _ entry hl

section Stored

variable {calls : List Call} (h : ∀ id entry, .raw id entry ∈ calls → Plain entry)
include h

theorem Call.plain_entry {c : Call} (hc : c ∈ calls) : Plain c.entry := by
  cases c with
  | question id spec => exact spec.plain_toJson.sorted
  | raw id entry => exact (h id entry hc).sorted

theorem Call.sorted_entry {c : Call} (hc : c ∈ calls) : c.entry.sorted = c.entry := by
  cases c with
  | question id spec => exact spec.plain_toJson.sorted_sorted
  | raw id entry => exact (h id entry hc).sorted_sorted

theorem ofText_built (start : String) :
    ofText (built start calls).toJson.text = .ok (built start calls) ↔
      (built start calls).toJson.depth < Json.nestingLimit := by
  have hstored : ∀ e ∈ (built start calls).questions.entries,
      e.2.Plain ∧ e.2.sorted = e.2 := by
    intro e he
    obtain ⟨c, hl, hc⟩ := exists_last? he
    rw [← hc]
    exact ⟨Call.plain_entry h (mem_of_last? hl), Call.sorted_entry h (mem_of_last? hl)⟩
  rw [ofText_toJson (fun e he => (hstored e he).1) fun e he => (hstored e he).2,
    depth_toJson_lt_iff]
  split
  · next hf => exact iff_of_true rfl hf
  · next hf => exact iff_of_false (by rintro ⟨⟩) hf

end Stored

end Outline

namespace Terminology

open Json.Source

theorem plain_entry (e : TermEntry) : Plain e.toJson := by
  refine .object ?_
  cases e.link with
  | none => simpa using .string _
  | some link => simpa using ⟨.string _, .string link⟩

theorem read_entry (e : TermEntry) (n : Nat) :
    TermEntry.shape.read (n + 2) (ofJson e.toJson) = .ok e := by
  obtain ⟨definition, link⟩ := e
  cases link <;> simp [TermEntry.toJson, ofJson, ofMembers, Shape.read, Shape.readMembers,
    TermEntry.shape, enter_add_two, literalText, Json.StringLiteral.ofText, asString,
    asOptionalString, Except.map, close, bind, Except.bind, pure, Except.pure]

theorem ofText_toJson (t : Terminology) : ofText t.toJson.text = .ok t := by
  have hplain : Plain t.toJson := .object fun m hm => by
    obtain ⟨e, -, rfl⟩ := List.mem_map.mp hm
    exact plain_entry e.2
  have htable := @asTable_ofJson _ (fun nesting s => TermEntry.shape.read nesting s)
    TermEntry.toJson (fun _ => True) _ 126 (.fault .tooDeep) t
    fun e _ => (read_entry e.2 125).trans (if_pos trivial).symm
  rw [ofText, Json.read_text _ hplain]
  exact htable.trans (if_pos fun _ _ => trivial)

end Terminology

/-- What the builders write is read back. The entry stored for a question says exactly that
question. An outline keeps the entry of the last call for each id, and its text is read as the
same outline exactly if the document keeps within the nesting limit, which it does unless an
entry put in as authored is nested too deep for its place. The text of a terminology is read as
the same terminology. -/
theorem built_reads_back (start : String) (calls : List Outline.Call)
    (h : ∀ id entry, .raw id entry ∈ calls → Plain entry) :
    (∀ (o : Outline) (id : String) (spec : QuestionSpec), ∃ entry,
        (o.withQuestion id spec).questions.get? id = some entry ∧
          QuestionSpec.ofJson entry = .ok spec) ∧
      (let o := Outline.built start calls;
        o.start = start ∧
        (∀ id, o.questions.get? id = (Outline.last? calls id).map Outline.Call.entry) ∧
        (Outline.ofText o.toJson.text = .ok o ↔ o.toJson.depth < Json.nestingLimit) ∧
        (o.toJson.depth < Json.nestingLimit ↔
          ∀ id entry, Outline.last? calls id = some (.raw id entry) →
            entry.sorted.depth + 2 < Json.nestingLimit)) ∧
      ∀ t : Terminology, Terminology.ofText t.toJson.text = .ok t := by
  refine ⟨fun o id spec => ⟨spec.toJson.sorted, ?_, spec.ofJson_toJson⟩, ?_,
    Terminology.ofText_toJson⟩
  · exact (Table.get?_put _ _ _ _).trans (if_pos rfl)
  · intro o
    exact ⟨congrArg Outline.start (Outline.built_eq start calls), Outline.get?_built start calls,
      Outline.ofText_built h start, Outline.depth_toJson_built_lt_iff start calls⟩

/-- A question is put in, and an entry that is none is authored over it. -/
theorem built_reads_back_authored :
    let spec : QuestionSpec := { title := "\"A\"", format := .select true ["a", "a"] }
    let calls : List Outline.Call :=
      [.raw "0" .null, .question "0" spec, .question "1" spec, .raw "1" (.array [.integer (-1)])]
    let o := Outline.built "0" calls
    (∀ id entry, .raw id entry ∈ calls → Plain entry) ∧
      o.questions.get? "0" = some spec.toJson.sorted ∧
      o.questions.get? "1" = some (.array [.integer (-1)]) ∧
      Outline.ofText o.toJson.text = .ok o := by
  intro spec calls o
  have hraw : ∀ id entry, .raw id entry ∈ calls → Plain entry ∧ Outline.Fits entry.sorted := by
    intro id entry he
    simp only [calls, List.mem_cons, Outline.Call.raw.injEq, List.not_mem_nil, or_false,
      reduceCtorEq, false_or] at he
    rcases he with ⟨-, rfl⟩ | ⟨-, rfl⟩
    · exact ⟨.null, by decide⟩
    · exact ⟨.array (by simpa using .integer ⟨by decide, by decide⟩), by decide⟩
  have h := fun id entry he => (hraw id entry he).1
  obtain ⟨-, ⟨-, hget, htext, hdepth⟩, -⟩ := built_reads_back "0" calls h
  have hfits := hdepth.mpr fun id entry hl => (hraw id entry (Outline.mem_of_last? hl)).2
  exact ⟨h, hget "0", hget "1", htext.mpr hfits⟩

end Questionnaire
