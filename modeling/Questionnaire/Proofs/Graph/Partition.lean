import Mathlib.Data.List.Basic
import Questionnaire.Proofs.Graph.Build
import Questionnaire.Proofs.Question.Answered

/-! # Built and dropped entries

Every entry of an outline is either a question of the built graph or reported with the
reason why it is none, in the order of ids. What becomes of an entry depends on that
entry alone.
-/

namespace Questionnaire

theorem Outline.spec?_eq_some_iff {o : Outline} {id : String} {spec : QuestionSpec} :
    o.spec? id = some spec ↔
      ∃ entry, o.questions.get? id = some entry ∧ QuestionSpec.ofJson entry = .ok spec := by
  rw [spec?, Option.bind_eq_some_iff]
  refine exists_congr fun entry => and_congr_right fun _ => ?_
  cases QuestionSpec.ofJson entry <;> simp [Except.toOption]

namespace Graph

variable {outline : Outline} {context : Context} {id : String}

/-- Why an entry is left out, unless it can be read as a question. -/
def refusal? (entry : String × Json) : Option BuildError :=
  match QuestionSpec.ofJson entry.2 with
  | .ok _ => none
  | .error cause => some ⟨entry.1, cause⟩

theorem refusal?_eq_some_iff {entry : String × Json} {e : BuildError} :
    refusal? entry = some e ↔ entry.1 = e.id ∧ QuestionSpec.ofJson entry.2 = .error e.cause := by
  rw [refusal?]
  cases QuestionSpec.ofJson entry.2 with
  | ok spec => simp
  | error cause => cases e; simp

theorem errors_buildQuestions (context : Context) (entries : List (String × Json)) :
    (buildQuestions context entries).value.2 = entries.filterMap refusal? := by
  have hfold : (buildQuestions context entries).value.2 =
      entries.foldl (fun errors entry => errors ++ (refusal? entry).toList) [] := by
    rw [buildQuestions, Logged.value_foldlM]
    refine (List.foldl_hom Prod.snd fun acc entry => ?_).symm
    simp only [refusal?, Question.ofEntry]
    cases QuestionSpec.ofJson entry.2 <;> simp [Except.map]
  rw [hfold, List.filterMap_eq_flatMap_toList, List.flatMap_eq_foldl]

theorem errors_build (outline : Outline) (context : Context) :
    (build outline context).value.2 = outline.questions.entries.filterMap refusal? :=
  errors_buildQuestions context outline.questions.entries

theorem mem_errors_build {e : BuildError} :
    e ∈ (build outline context).value.2 ↔
      ∃ entry, outline.questions.get? e.id = some entry ∧
        QuestionSpec.ofJson entry = .error e.cause := by
  simp only [errors_build, List.mem_filterMap, refusal?_eq_some_iff, Prod.exists,
    Table.mem_entries_iff]
  constructor
  · rintro ⟨_, entry, hentry, rfl, hcause⟩
    exact ⟨entry, hentry, hcause⟩
  · rintro ⟨entry, hentry, hcause⟩
    exact ⟨e.id, entry, hentry, rfl, hcause⟩

theorem sublist_ids_filterMap_refusal? (entries : List (String × Json)) :
    ((entries.filterMap refusal?).map BuildError.id).Sublist (entries.map Prod.fst) := by
  induction entries with
  | nil => exact .slnil
  | cons entry entries ih =>
    cases hr : refusal? entry with
    | none =>
      rw [List.filterMap_cons_none hr]
      exact ih.cons entry.1
    | some e =>
      rw [List.filterMap_cons_some hr, List.map_cons, List.map_cons,
        ← (refusal?_eq_some_iff.mp hr).1]
      exact ih.cons_cons entry.1

theorem pairwise_ids_errors_build (outline : Outline) (context : Context) :
    ((build outline context).value.2.map BuildError.id).Pairwise (· < ·) := by
  rw [errors_build]
  exact outline.questions.sorted.sublist (sublist_ids_filterMap_refusal? _)

theorem get?_build_eq_some_iff {q : Question} :
    (build outline context).value.1.get? id = some q ↔
      ∃ spec, outline.spec? id = some spec ∧ (Question.create id spec context).value = q := by
  rw [get?_build, Option.map_eq_some_iff]

theorem contains_build_iff :
    (build outline context).value.1.contains id ↔ ∃ spec, outline.spec? id = some spec := by
  change ((build outline context).value.1.get? id).isSome ↔ _
  rw [get?_build, Option.isSome_map, Option.isSome_iff_exists]

theorem mem_keys_build_iff :
    id ∈ (build outline context).value.1.questions.keys ↔
      ∃ spec, outline.spec? id = some spec := by
  rw [Table.mem_keys_iff, ← Option.isSome_iff_exists]
  exact contains_build_iff

theorem mem_ids_errors_build_iff :
    id ∈ (build outline context).value.2.map BuildError.id ↔
      ∃ entry cause, outline.questions.get? id = some entry ∧
        QuestionSpec.ofJson entry = .error cause := by
  rw [List.mem_map]
  constructor
  · rintro ⟨e, he, rfl⟩
    obtain ⟨entry, hentry, hcause⟩ := mem_errors_build.mp he
    exact ⟨entry, e.cause, hentry, hcause⟩
  · rintro ⟨entry, cause, hentry, hcause⟩
    exact ⟨⟨id, cause⟩, mem_errors_build.mpr ⟨entry, hentry, hcause⟩, rfl⟩

/-- A graph is built of the entries that can be read, each for itself, and the others are
reported. An entry of another id changes nothing for an id. -/
theorem build_splits_entries (outline : Outline) (context : Context) :
    let g := (build outline context).value.1
    let errors := (build outline context).value.2
    (∀ id, id ∈ g.questions.keys → id ∉ errors.map BuildError.id) ∧
      (∀ id, id ∈ outline.questions.keys ↔
        id ∈ g.questions.keys ∨ id ∈ errors.map BuildError.id) ∧
      (errors.map BuildError.id).Pairwise (· < ·) ∧
      (∀ id, g.contains id ↔ ∃ entry spec, outline.questions.get? id = some entry ∧
        QuestionSpec.ofJson entry = .ok spec) ∧
      (∀ id cause, ⟨id, cause⟩ ∈ errors ↔ ∃ entry, outline.questions.get? id = some entry ∧
        QuestionSpec.ofJson entry = .error cause) ∧
      (∀ id q, g.get? id = some q → ∃ entry spec, outline.questions.get? id = some entry ∧
        QuestionSpec.ofJson entry = .ok spec ∧ q.id = id ∧ q.title = spec.title ∧
        q.widget.kind = Widget.kindOf spec.format context.templates ∧ q.next = spec.next) ∧
      ∀ (other : Outline) (k : String),
        (∀ id, id ≠ k → other.questions.get? id = outline.questions.get? id) →
        ∀ id, id ≠ k →
          let g' := (build other context).value.1
          let errors' := (build other context).value.2
          g'.contains id = g.contains id ∧ g'.get? id = g.get? id ∧
            ∀ cause, ⟨id, cause⟩ ∈ errors' ↔ ⟨id, cause⟩ ∈ errors := by
  intro g errors
  refine ⟨?_, ?_, pairwise_ids_errors_build outline context, ?_, ?_, ?_, ?_⟩
  · intro id hg he
    obtain ⟨spec, hspec⟩ := mem_keys_build_iff.mp hg
    obtain ⟨entry, hentry, hok⟩ := Outline.spec?_eq_some_iff.mp hspec
    obtain ⟨entry', cause, hentry', herror⟩ := mem_ids_errors_build_iff.mp he
    obtain rfl : entry = entry' := Option.some.inj (hentry.symm.trans hentry')
    cases hok.symm.trans herror
  · intro id
    rw [Table.mem_keys_iff, mem_keys_build_iff, mem_ids_errors_build_iff]
    constructor
    · rintro ⟨entry, hentry⟩
      cases hread : QuestionSpec.ofJson entry with
      | ok spec => exact .inl ⟨spec, Outline.spec?_eq_some_iff.mpr ⟨entry, hentry, hread⟩⟩
      | error cause => exact .inr ⟨entry, cause, hentry, hread⟩
    · rintro (⟨spec, hspec⟩ | ⟨entry, cause, hentry, -⟩)
      · obtain ⟨entry, hentry, -⟩ := Outline.spec?_eq_some_iff.mp hspec
        exact ⟨entry, hentry⟩
      · exact ⟨entry, hentry⟩
  · intro id
    rw [contains_build_iff]
    simp only [Outline.spec?_eq_some_iff]
    exact exists_comm
  · intro id cause
    exact mem_errors_build
  · intro id q hq
    obtain ⟨spec, hspec, rfl⟩ := get?_build_eq_some_iff.mp hq
    obtain ⟨entry, hentry, hok⟩ := Outline.spec?_eq_some_iff.mp hspec
    rw [Question.value_create]
    exact ⟨entry, spec, hentry, hok, rfl, rfl, rfl, rfl⟩
  · intro other k hother id hid g' errors'
    have hget : g'.get? id = g.get? id := by
      rw [get?_build, get?_build, Outline.spec?, Outline.spec?, hother id hid]
    refine ⟨congrArg Option.isSome hget, hget, ?_⟩
    intro cause
    rw [mem_errors_build, mem_errors_build, hother id hid]

/-- A dropped entry is repaired beside a question that is not changed. -/
theorem build_splits_entries_repaired :
    let text : Json := .object [("format", .object [("type", .string "text")]),
      ("next", .object []), ("title", .string "T")]
    let slider : Json := .object [("format", .object [("type", .string "slider")])]
    let outline : Outline := ⟨"0", .ofList [("0", text), ("1", slider)]⟩
    let other : Outline := ⟨"0", outline.questions.put "1" text⟩
    let context : Context := ⟨.ofSources "" "" none "" "", .empty, {}⟩
    let g := (build outline context).value.1
    let g' := (build other context).value.1
    ("0" ∈ g.questions.keys ∧ "0" ∉ (build outline context).value.2.map BuildError.id) ∧
      (∃ q, g.get? "0" = some q ∧ ∃ entry spec, outline.questions.get? "0" = some entry ∧
        QuestionSpec.ofJson entry = .ok spec ∧ q.id = "0" ∧ q.title = spec.title ∧
        q.widget.kind = Widget.kindOf spec.format context.templates ∧ q.next = spec.next) ∧
      (∀ id, id ≠ "1" → other.questions.get? id = outline.questions.get? id) ∧ "0" ≠ "1" ∧
      g'.contains "0" = g.contains "0" ∧ g'.get? "0" = g.get? "0" ∧
      ∀ cause, ⟨"0", cause⟩ ∈ (build other context).value.2 ↔
        ⟨"0", cause⟩ ∈ (build outline context).value.2 := by
  intro text slider outline other context g g'
  have hspec : outline.spec? "0" = some { title := "T", format := .text } := by decide
  have hkey : "0" ∈ g.questions.keys := mem_keys_build_iff.mpr ⟨_, hspec⟩
  have hget : g.get? "0" = some _ := get?_build_eq_some_iff.mpr ⟨_, hspec, rfl⟩
  have hother : ∀ id, id ≠ "1" → other.questions.get? id = outline.questions.get? id := by
    intro id hid
    rw [Table.get?_put, if_neg hid]
  obtain ⟨hdisjoint, -, -, -, -, hfields, hagree⟩ := build_splits_entries outline context
  exact ⟨⟨hkey, hdisjoint "0" hkey⟩, ⟨_, hget, hfields "0" _ hget⟩, hother, by decide,
    hagree other "1" hother "0" (by decide)⟩

end Graph

end Questionnaire
