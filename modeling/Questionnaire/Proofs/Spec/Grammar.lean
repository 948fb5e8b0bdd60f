import Questionnaire.Spec.Reader

/-! # The grammar of entries

What an entry has to hold to be a question: a tag of a known answer format, and members of
the right types. Reading accepts exactly these entries and gives what their members say.
The others are told apart by their tags alone.
-/

namespace Questionnaire

namespace Json

theorem bind_eq_ok_iff {ε α β : Type} {x : Except ε α} {f : α → Except ε β} {b : β} :
    x >>= f = .ok b ↔ ∃ a, x = .ok a ∧ f a = .ok b := by
  cases x <;> simp [bind, Except.bind]

theorem map_eq_ok_iff {ε α β : Type} {x : Except ε α} {f : α → β} {b : β} :
    f <$> x = .ok b ↔ ∃ a, x = .ok a ∧ f a = b := by
  cases x <;> simp [Functor.map, Except.map]

theorem pure_eq_ok_iff {ε α : Type} {a b : α} : (pure a : Except ε α) = .ok b ↔ b = a := by
  simp [pure, Except.pure, eq_comm]

section Readers

variable {v : Json}

theorem asString_eq_ok_iff {s : String} : v.asString = .ok s ↔ v = .string s := by
  cases v <;> simp [asString]

theorem asBool_eq_ok_iff {b : Bool} : v.asBool = .ok b ↔ v = .bool b := by
  cases v <;> simp [asBool]

def ofText? : Option String → Json
  | none => .null
  | some s => .string s

theorem asOptionalString_eq_ok_iff {s : Option String} :
    v.asOptionalString = .ok s ↔ v = ofText? s := by
  cases v <;> cases s <;> simp [asOptionalString, asString, ofText?, Except.map]

def ofTexts (ss : List String) : Json := .array (ss.map .string)

theorem mapM_asString_eq_ok_iff {vs : List Json} {ss : List String} :
    vs.mapM asString = .ok ss ↔ vs = ss.map .string := by
  induction vs generalizing ss with
  | nil => cases ss <;> simp [pure, Except.pure]
  | cons v vs ih =>
    simp only [List.mapM_cons, bind_eq_ok_iff, pure_eq_ok_iff, asString_eq_ok_iff, ih]
    cases ss <;> simp

theorem asStrings_eq_ok_iff {ss : List String} : v.asStrings = .ok ss ↔ v = ofTexts ss := by
  cases v <;> simp [asStrings, ofTexts, mapM_asString_eq_ok_iff]

def ofTextMembers (es : List (String × String)) : Json :=
  .object (es.map fun e => (e.1, .string e.2))

theorem foldlM_asString_eq_ok_iff {ms : List (String × Json)} {t t' : Table String} :
    ms.foldlM (fun (t : Table String) m => t.put m.1 <$> m.2.asString) t = .ok t' ↔
      ∃ es : List (String × String), ms = es.map (fun e => (e.1, .string e.2)) ∧
        t' = es.foldl (fun t e => t.put e.1 e.2) t := by
  induction ms generalizing t with
  | nil => simp [pure_eq_ok_iff]
  | cons m ms ih =>
    simp only [List.foldlM_cons, bind_eq_ok_iff, map_eq_ok_iff, asString_eq_ok_iff, ih]
    constructor
    · rintro ⟨_, ⟨s, hs, rfl⟩, es, rfl, rfl⟩
      exact ⟨(m.1, s) :: es, by simp [← hs], rfl⟩
    · rintro ⟨_ | ⟨e, es⟩, hms, rfl⟩
      · cases hms
      · obtain ⟨rfl, rfl⟩ := List.cons.inj hms
        exact ⟨_, ⟨e.2, rfl, rfl⟩, es, rfl, rfl⟩

theorem asStringTable_eq_ok_iff {t : Table String} :
    v.asStringTable = .ok t ↔ ∃ es, v = ofTextMembers es ∧ t = .ofList es := by
  cases v <;> simp [asStringTable, ofTextMembers, foldlM_asString_eq_ok_iff, Table.ofList]

end Readers

/-- A member that stands for a default where it is left out. -/
inductive Defaulted {α : Type} (write : α → Json) (default : α) : Option Json → α → Prop where
  | absent : Defaulted write default none default
  | given (a : α) : Defaulted write default (some (write a)) a

section Members

variable {α : Type} {key : String} {read : Json → Except Error α} {v : Json}

theorem member?_eq_ok_iff {a? : Option α} : v.member? key read = .ok a? ↔
    v.get? key = none ∧ a? = none ∨ ∃ w a, v.get? key = some w ∧ read w = .ok a ∧ a? = some a := by
  rw [member?]
  cases v.get? key with
  | none => simp [eq_comm]
  | some w => cases hr : read w <;> simp [Except.map, hr, eq_comm]

theorem member?_defaulted_iff {write : α → Json} (h : ∀ w a, read w = .ok a ↔ w = write a)
    {default a : α} : (∃ a?, v.member? key read = .ok a? ∧ a?.getD default = a) ↔
      Defaulted write default (v.get? key) a := by
  simp only [member?_eq_ok_iff, h]
  constructor
  · rintro ⟨_, ⟨hv, rfl⟩ | ⟨w, b, hv, rfl, rfl⟩, rfl⟩
    · exact hv ▸ .absent
    · exact hv ▸ .given b
  · intro hd
    generalize v.get? key = member at hd
    cases hd with
    | absent => exact ⟨none, .inl ⟨rfl, rfl⟩, rfl⟩
    | given => exact ⟨some a, .inr ⟨_, a, rfl, rfl, rfl⟩, rfl⟩

theorem member?_required_iff {name : String} {a : α} :
    (∃ a?, v.member? key read = .ok a? ∧ QuestionSpec.required name a? = .ok a) ↔
      ∃ w, v.get? key = some w ∧ read w = .ok a := by
  simp only [member?_eq_ok_iff]
  constructor
  · rintro ⟨_, ⟨-, rfl⟩ | ⟨w, b, hv, hw, rfl⟩, ha⟩
    · cases ha
    · exact ⟨w, hv, by rwa [Except.ok.inj ha] at hw⟩
  · rintro ⟨w, hv, hw⟩
    exact ⟨some a, .inr ⟨w, a, hv, hw, rfl⟩, rfl⟩

end Members

end Json

namespace FormatSpec

open Json (Defaulted)

/-- A format as its members have it. -/
inductive Written (format : Json) : FormatSpec → Prop where
  | select {multiple : Bool} {options : List String} :
      format.get? "type" = some (.string "select") →
      Defaulted .bool false (format.get? "multiple") multiple →
      Defaulted Json.ofTexts [] (format.get? "options") options →
      Written format (select multiple options)
  | text : format.get? "type" = some (.string "text") → Written format text

theorem Tag.ofName?_eq_some_iff {name : String} {tag : Tag} :
    Tag.ofName? name = some tag ↔
      name = match tag with
        | .select => "select"
        | .text => "text" := by
  rw [Tag.ofName?.eq_def]
  split <;> cases tag <;> simp_all

theorem ofFields_select_eq_ok_iff {format : Json} {f : FormatSpec} :
    ofFields .select format = .ok f ↔ ∃ multiple options,
      Defaulted .bool false (format.get? "multiple") multiple ∧
        Defaulted Json.ofTexts [] (format.get? "options") options ∧
        f = select multiple options := by
  simp only [← Json.member?_defaulted_iff fun _ _ => Json.asBool_eq_ok_iff,
    ← Json.member?_defaulted_iff fun _ _ => Json.asStrings_eq_ok_iff, ofFields,
    Json.bind_eq_ok_iff, Json.pure_eq_ok_iff]
  constructor
  · rintro ⟨m, hm, os, hos, rfl⟩
    exact ⟨_, _, ⟨m, hm, rfl⟩, ⟨os, hos, rfl⟩, rfl⟩
  · rintro ⟨_, _, ⟨m, hm, rfl⟩, ⟨os, hos, rfl⟩, rfl⟩
    exact ⟨m, hm, os, hos, rfl⟩

theorem ofFields_eq_ok_iff {tag : Tag} {format : Json} {f : FormatSpec} {name : String}
    (ht : format.get? "type" = some (.string name)) (hn : Tag.ofName? name = some tag) :
    ofFields tag format = .ok f ↔ Written format f := by
  obtain rfl := Tag.ofName?_eq_some_iff.mp hn
  cases tag with
  | text =>
    constructor
    · intro h
      obtain rfl := Except.ok.inj h
      exact .text ht
    · rintro (⟨ht', -, -⟩ | _)
      · simp [ht] at ht'
      · rfl
  | select =>
    rw [ofFields_select_eq_ok_iff]
    constructor
    · rintro ⟨multiple, options, hm, ho, rfl⟩
      exact .select ht hm ho
    · rintro (⟨-, hm, ho⟩ | ht')
      · exact ⟨_, _, hm, ho, rfl⟩
      · simp [ht] at ht'

end FormatSpec

namespace QuestionSpec

open Json (Defaulted)

/-- A question as its entry has it. Members that are not named may hold anything. -/
structure Written (entry : Json) (spec : QuestionSpec) : Prop where
  title : entry.get? "title" = some (.string spec.title)
  description : Defaulted Json.ofText? none (entry.get? "description") spec.description
  format : ∃ format, entry.get? "format" = some format ∧ spec.format.Written format
  next : ∃ targets, entry.get? "next" = some (.ofTextMembers targets) ∧
    spec.next = .ofList targets

inductive Tagged : Json → Json → Prop where
  | mk {members fields : List (String × Json)} {tag : Json} :
      members.lookup "format" = some (.object fields) → fields.lookup "type" = some tag →
      Tagged (.object members) tag

theorem tagged_iff {entry tag : Json} : Tagged entry tag ↔
    ∃ format, entry.get? "format" = some format ∧ format.get? "type" = some tag := by
  constructor
  · rintro ⟨hf, ht⟩
    exact ⟨_, hf, ht⟩
  · rintro ⟨format, hf, ht⟩
    cases entry with
    | object members =>
      cases format with
      | object fields => exact .mk hf ht
      | _ => cases ht
    | _ => cases hf

theorem join_eq_getD (d : Option (Option String)) : d.join = d.getD none := by
  cases d <;> rfl

theorem ofFields_eq_ok_iff {tag : FormatSpec.Tag} {format entry : Json} {spec : QuestionSpec}
    {name : String} (hf : entry.get? "format" = some format)
    (ht : format.get? "type" = some (.string name)) (hn : FormatSpec.Tag.ofName? name = some tag) :
    ofFields tag format entry = .ok spec ↔ Written entry spec := by
  have hdescription : ∀ d, _ ↔ Defaulted Json.ofText? none (entry.get? "description") d :=
    fun d => Json.member?_defaulted_iff fun _ _ => Json.asOptionalString_eq_ok_iff
  simp only [ofFields, Json.bind_eq_ok_iff, Json.pure_eq_ok_iff, join_eq_getD,
    FormatSpec.ofFields_eq_ok_iff ht hn]
  constructor
  · rintro ⟨d, hd, f, hw, next?, hnext?, title?, htitle?, title, htitle, next, hnext, rfl⟩
    obtain ⟨v, hv, ht⟩ := Json.member?_required_iff.mp ⟨title?, htitle?, htitle⟩
    obtain ⟨w, hw', hn⟩ := Json.member?_required_iff.mp ⟨next?, hnext?, hnext⟩
    obtain rfl := Json.asString_eq_ok_iff.mp ht
    obtain ⟨targets, rfl, rfl⟩ := Json.asStringTable_eq_ok_iff.mp hn
    exact ⟨hv, (hdescription _).mp ⟨d, hd, rfl⟩, ⟨format, hf, hw⟩, targets, hw', rfl⟩
  · rintro ⟨htitle, hd, ⟨format', hf', hw⟩, targets, hnext, hs⟩
    obtain rfl := Option.some.inj (hf.symm.trans hf')
    obtain ⟨d, hd, hdd⟩ := (hdescription _).mpr hd
    obtain ⟨title?, ht?, ht⟩ := Json.member?_required_iff.mpr
      ⟨_, htitle, Json.asString_eq_ok_iff.mpr rfl⟩
    obtain ⟨next?, hn?, hn⟩ := Json.member?_required_iff.mpr
      ⟨_, hnext, Json.asStringTable_eq_ok_iff.mpr ⟨targets, rfl, hs⟩⟩
    exact ⟨d, hd, _, hw, next?, hn?, title?, ht?, _, ht, _, hn, by rw [hdd]⟩

/-- The tag of an answer format that there is. -/
def Known (tag : Json) : Prop := tag = .string "select" ∨ tag = .string "text"

theorem known_iff {tag : Json} :
    Known tag ↔ ∃ name t, tag = .string name ∧ FormatSpec.Tag.ofName? name = some t := by
  constructor
  · rintro (rfl | rfl)
    · exact ⟨_, .select, rfl, rfl⟩
    · exact ⟨_, .text, rfl, rfl⟩
  · rintro ⟨name, t, rfl, hn⟩
    obtain rfl := FormatSpec.Tag.ofName?_eq_some_iff.mp hn
    cases t
    · exact .inl rfl
    · exact .inr rfl

/-- What is reported of a tag: a text as it is, anything else as its JSON text. -/
def shownTag : Json → String
  | .string name => name
  | tag => tag.text

variable {entry tag : Json} {spec : QuestionSpec}

theorem ofJson_of_not_tagged (h : ¬ ∃ tag, Tagged entry tag) :
    ofJson entry = .error .missingFormatType := by
  simp only [tagged_iff, not_exists, not_and] at h
  rw [ofJson]
  cases hf : entry.get? "format" with
  | none => rfl
  | some format =>
    cases ht : format.get? "type" with
    | none => simp only [ht]
    | some tag => exact absurd ht (h tag format hf)

theorem ofJson_of_unknown (h : Tagged entry tag) (hk : ¬ Known tag) :
    ofJson entry = .error (.unknownFormat (shownTag tag)) := by
  obtain ⟨format, hf, ht⟩ := tagged_iff.mp h
  simp only [ofJson, hf, ht]
  cases tag with
  | string name =>
    cases hn : FormatSpec.Tag.ofName? name with
    | none => simp only [hn, shownTag]
    | some t => exact absurd (known_iff.mpr ⟨name, t, rfl, hn⟩) hk
  | _ => rfl

/-- With a known tag, the members say what the question is, or the entry is malformed. -/
theorem ofJson_of_known (h : Tagged entry tag) (hk : Known tag) :
    (∃ spec, ofJson entry = .ok spec ∧ ∀ spec', Written entry spec' ↔ spec' = spec) ∨
      ∃ cause, ofJson entry = .error (.malformed cause) ∧ ∀ spec, ¬ Written entry spec := by
  obtain ⟨format, hf, ht⟩ := tagged_iff.mp h
  obtain ⟨name, t, rfl, hn⟩ := known_iff.mp hk
  have hw (spec : QuestionSpec) : ofFields t format entry = .ok spec ↔ Written entry spec :=
    ofFields_eq_ok_iff hf ht hn
  cases hr : ofFields t format entry with
  | ok spec =>
    refine .inl ⟨spec, ?_, fun spec' => ?_⟩
    · simp only [ofJson, hf, ht, hn, hr]
      rfl
    · rw [← hw, hr, Except.ok.injEq, eq_comm]
  | error cause =>
    refine .inr ⟨cause, ?_, fun spec => ?_⟩
    · simp only [ofJson, hf, ht, hn, hr]
      rfl
    · rw [← hw, hr]
      exact nofun

theorem Tagged.unique {tag' : Json} (h : Tagged entry tag) (h' : Tagged entry tag') :
    tag = tag' := by
  obtain ⟨hf, ht⟩ := h
  obtain ⟨hf', ht'⟩ := h'
  obtain rfl := Json.object.inj (Option.some.inj (hf.symm.trans hf'))
  exact Option.some.inj (ht.symm.trans ht')

theorem Tagged.exists_iff (h : Tagged entry tag) {p : Json → Prop} :
    (∃ tag', Tagged entry tag' ∧ p tag') ↔ p tag := by
  constructor
  · rintro ⟨tag', h', hp⟩
    rwa [h.unique h']
  · exact fun hp => ⟨tag, h, hp⟩

theorem Written.exists_known (h : Written entry spec) : ∃ tag, Tagged entry tag ∧ Known tag := by
  obtain ⟨format, hf, hw⟩ := h.format
  generalize spec.format = f at hw
  cases hw with
  | select ht => exact ⟨_, tagged_iff.mpr ⟨format, hf, ht⟩, .inl rfl⟩
  | text ht => exact ⟨_, tagged_iff.mpr ⟨format, hf, ht⟩, .inr rfl⟩

theorem ofJson_eq_ok_iff : ofJson entry = .ok spec ↔ Written entry spec := by
  by_cases hk : ∃ tag, Tagged entry tag ∧ Known tag
  · obtain ⟨tag, ht, hk⟩ := hk
    rcases ofJson_of_known ht hk with ⟨spec', hs, hw⟩ | ⟨cause, hc, hw⟩
    · rw [hs, hw, Except.ok.injEq, eq_comm]
    · rw [hc]
      exact iff_of_false nofun (hw spec)
  · refine iff_of_false (fun h => ?_) fun h => hk h.exists_known
    by_cases ht : ∃ tag, Tagged entry tag
    · obtain ⟨tag, ht⟩ := ht
      rw [ofJson_of_unknown ht fun hk' => hk ⟨tag, ht, hk'⟩] at h
      cases h
    · rw [ofJson_of_not_tagged ht] at h
      cases h

/-- An entry is classified by the tag of its answer format, whatever else is wrong with it:
without one there is no format, and an unknown one is reported. With a known tag, reading
gives exactly what the entry says by the grammar, and an entry that says nothing by it is
malformed. -/
theorem ofJson_classifies (entry : Json) :
    (ofJson entry = .error .missingFormatType ↔ ¬ ∃ tag, Tagged entry tag) ∧
      (∀ shown, ofJson entry = .error (.unknownFormat shown) ↔
        ∃ tag, Tagged entry tag ∧ ¬ Known tag ∧ shown = shownTag tag) ∧
      (∀ spec, ofJson entry = .ok spec ↔ Written entry spec) ∧
      ((∃ cause, ofJson entry = .error (.malformed cause)) ↔
        (∃ tag, Tagged entry tag ∧ Known tag) ∧ ¬ ∃ spec, Written entry spec) := by
  simp only [← ofJson_eq_ok_iff]
  by_cases ht : ∃ tag, Tagged entry tag
  · obtain ⟨tag, ht⟩ := ht
    have htag : ∃ tag, Tagged entry tag := ⟨tag, ht⟩
    by_cases hk : Known tag
    · simp only [ht.exists_iff, htag, hk]
      rcases ofJson_of_known ht hk with ⟨spec, hs, -⟩ | ⟨cause, hc, -⟩
      · simp [hs]
      · simp [hc]
    · simp only [ofJson_of_unknown ht hk, ht.exists_iff, htag, hk]
      simp [eq_comm]
  · rw [ofJson_of_not_tagged ht]
    simp [not_exists.mp ht]

/-- The tag is looked at before a title of the wrong type. -/
example : ofJson (.object [("format", .object [("type", .string "slider")]), ("title", .null)]) =
    .error (.unknownFormat "slider") := by rfl

end QuestionSpec

end Questionnaire
