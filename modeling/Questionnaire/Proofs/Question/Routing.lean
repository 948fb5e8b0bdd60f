import Questionnaire.Proofs.Widget.Parity

/-! # Where selections lead

What has been chosen of several options is joined into the key by which the next question is
looked up. A separator of one character that no option has can be found again in the key, so the
key tells the whole selection: no two selections share one, and a key put among the transitions
moves one selection only. An answer without values has no key.
-/

namespace Questionnaire

namespace Answer

variable {c : Char} {options : List String} {separator key : String} {a b : Answer}

theorem key?_empty (separator : String) : empty.key? separator = none := rfl

theorem key?_eq_some_iff : a.key? separator = some key ↔ a ≠ .empty ∧ a.join separator = key := by
  rcases a with ⟨_ | ⟨v, _ | ⟨w, vs⟩⟩⟩
  · simp [key?, empty]
  · simp [key?, empty, join]
  · simp [key?, empty]

theorem splitOn_join (hc : ∀ v ∈ a.values, c ∉ v.toList) (h : a ≠ .empty) :
    (a.join (String.singleton c)).toList.splitOn c = a.values.map String.toList := by
  have hfree : ∀ v ∈ a.values.map String.toList, c ∉ v := by
    intro v hv
    obtain ⟨w, hw, rfl⟩ := List.mem_map.mp hv
    exact hc w hw
  have hne : a.values.map String.toList ≠ [] := by
    intro hm
    exact h (congrArg mk (List.map_eq_nil_iff.mp hm))
  rw [join, String.toList_intercalate, String.toList_singleton]
  exact List.splitOn_intercalate c hfree hne

/-- Answers whose values are free of the separator are told apart by their keys. -/
theorem eq_of_key? (ha : ∀ v ∈ a.values, c ∉ v.toList) (hb : ∀ v ∈ b.values, c ∉ v.toList)
    (hka : a.key? (String.singleton c) = some key)
    (hkb : b.key? (String.singleton c) = some key) : a = b := by
  obtain ⟨hna, hja⟩ := key?_eq_some_iff.mp hka
  obtain ⟨hnb, hjb⟩ := key?_eq_some_iff.mp hkb
  have hvalues : a.values.map String.toList = b.values.map String.toList := by
    rw [← splitOn_join ha hna, ← splitOn_join hb hnb, hja, hjb]
  exact congrArg mk ((List.map_inj_right fun _ _ => String.toList_inj.mp).mp hvalues)

theorem bind_get?_put (ha : ∀ v ∈ a.values, c ∉ v.toList) (hb : ∀ v ∈ b.values, c ∉ v.toList)
    (hk : a.key? (String.singleton c) = some key) (next : Table String) (target : String) :
    (b.key? (String.singleton c)).bind (next.put key target).get? =
      if b = a then some target else (b.key? (String.singleton c)).bind next.get? := by
  by_cases h : b = a
  · rw [if_pos h, h, hk, Option.bind_some, Table.get?_put, if_pos rfl]
  · rw [if_neg h]
    cases hkb : b.key? (String.singleton c) with
    | none => rfl
    | some k =>
      have hne : k ≠ key := by
        rintro rfl
        exact h (eq_of_key? hb ha hkb hk)
      rw [Option.bind_some, Option.bind_some, Table.get?_put, if_neg hne]

theorem mem_of_mem_odd {clicks : String → Nat} {v : String} (h : v ∈ (odd options clicks).values) :
    v ∈ options :=
  List.mem_eraseDups.mp (List.mem_filter.mp h).1

end Answer

namespace Question

open Widget (Use)
open Widget.Use (clicks)

/-- Where the answer leads that a history gives. -/
def leads (q : Question) (history : List (Use String)) : Option String :=
  let s := run (q, {}) history
  s.1.nextFor s.1.answer

theorem leads_create (id : String) (spec : QuestionSpec) {options : List String}
    (hf : spec.format = .select true options) (context : Context) (history : List (Use String)) :
    (create id spec context).value.leads history =
      ((Answer.odd options (clicks history)).key? context.config.answerSeparator).bind
        spec.next.get? := by
  rw [leads, answer_run id spec hf context, question_run]
  rfl

/-- With a separator of one character that no option has, selections that differ are looked up by
different keys. So for each selection there is a key that routes it wherever one likes, and leaves
all the others where they lead. A question without a selection leads nowhere. Where an answer leads
is what the transition says that is sent for it. -/
theorem selections_never_collide {options : List String} {c : Char} {context : Context}
    (hc : ∀ option ∈ options, c ∉ option.toList)
    (hs : context.config.answerSeparator = String.singleton c)
    (id title : String) (description : Option String) :
    let q (next : Table String) :=
      (create id ⟨title, description, .select true options, next⟩ context).value
    let selected (history : List (Use String)) := (run (q .empty, {}) history).1.answer
    let key? (history : List (Use String)) :=
      (selected history).key? context.config.answerSeparator
    (∀ history history', selected history ≠ .empty → selected history' ≠ .empty →
      selected history ≠ selected history' →
        ∃ key key', key? history = some key ∧ key? history' = some key' ∧ key ≠ key') ∧
    (∀ history, selected history ≠ .empty → ∃ key, ∀ next target history',
      (q (next.put key target)).leads history' =
        if selected history' = selected history then some target else (q next).leads history') ∧
    (∀ next history, selected history = .empty → (q next).leads history = none) ∧
    ∀ next m history i a,
      let s := run (q next, m) history
      let o := (s.1.interact i s.2).value
      o.confirmed = some a →
        a = selected history ∧ o.mailbox = s.2.send ⟨id, a, (q next).leads history⟩ := by
  intro q selected key?
  let spec (next : Table String) : QuestionSpec := ⟨title, description, .select true options, next⟩
  have hselected (history) : selected history = .odd options (clicks history) :=
    answer_run id (spec .empty) rfl context {} history
  have hleads (next history) : (q next).leads history = (key? history).bind next.get? := by
    rw [leads_create id (spec next) rfl context history, ← hselected]
  have hfree (history) : ∀ v ∈ (selected history).values, c ∉ v.toList := by
    intro v hv
    rw [hselected] at hv
    exact hc v (Answer.mem_of_mem_odd hv)
  have hkey (history) : key? history = (selected history).key? (String.singleton c) := by
    rw [← hs]
  have hsome (history) (h : selected history ≠ .empty) : ∃ key, key? history = some key :=
    ⟨_, Answer.key?_eq_some_iff.mpr ⟨h, rfl⟩⟩
  refine ⟨fun history history' h h' hne => ?_, fun history h => ?_, fun next history h => ?_,
    fun next m history i a => ?_⟩
  · obtain ⟨key, hk⟩ := hsome history h
    obtain ⟨key', hk'⟩ := hsome history' h'
    refine ⟨key, key', hk, hk', ?_⟩
    rintro rfl
    rw [hkey] at hk hk'
    exact hne (Answer.eq_of_key? (hfree history) (hfree history') hk hk')
  · obtain ⟨key, hk⟩ := hsome history h
    rw [hkey] at hk
    refine ⟨key, fun next target history' => ?_⟩
    rw [hleads, hleads, hkey]
    exact Answer.bind_get?_put (hfree history) (hfree history') hk next target
  · rw [hleads, hkey, h, Answer.key?_empty]
    rfl
  · intro s o ha
    obtain ⟨hconfirmed, hmailbox⟩ := value_interact_run id (spec next) rfl context m history i
    obtain ⟨-, hodd⟩ := Option.ite_none_right_eq_some.mp (hconfirmed.symm.trans ha)
    obtain rfl : selected history = a := (hselected history).trans (Option.some.inj hodd)
    refine ⟨rfl, hmailbox.trans ?_⟩
    rw [ha, hleads]
    rfl

/-- The empty text is an option like any other: chosen alone it is not the empty selection, and
beside another option it can be told from it. -/
theorem selections_never_collide_blank :
    let options := ["", "A"]
    let context : Context := ⟨.ofSources "" "" (some "") "" "", .empty, {}⟩
    let both : List (Use String) := [.interact (.click "A"), .interact (.click "")]
    let blank : List (Use String) := [.interact (.click "")]
    let q (next : Table String) :=
      (create "0" ⟨"T", none, .select true options, next⟩ context).value
    (∀ option ∈ options, ',' ∉ option.toList) ∧
      context.config.answerSeparator = String.singleton ',' ∧
      (run (q .empty, {}) both).1.answer = ⟨["", "A"]⟩ ∧
      (run (q .empty, {}) blank).1.answer = ⟨[""]⟩ ∧
      (∃ key, ∀ next target, (q (next.put key target)).leads both = some target ∧
        (q (next.put key target)).leads blank = (q next).leads blank) ∧
      ∀ next, (q next).leads [] = none := by
  intro options context both blank q
  have hc : ∀ option ∈ options, ',' ∉ option.toList := by decide
  have hs : context.config.answerSeparator = String.singleton ',' := by decide
  have hboth : (run (q .empty, {}) both).1.answer = ⟨["", "A"]⟩ := by decide
  have hblank : (run (q .empty, {}) blank).1.answer = ⟨[""]⟩ := by decide
  have hne : (run (q .empty, {}) both).1.answer ≠ .empty := by
    rw [hboth]
    decide
  have hapart : ¬ (run (q .empty, {}) blank).1.answer = (run (q .empty, {}) both).1.answer := by
    rw [hboth, hblank]
    decide
  obtain ⟨-, hroutes, hnowhere, -⟩ := selections_never_collide hc hs "0" "T" none
  obtain ⟨key, hkey⟩ := hroutes both hne
  refine ⟨hc, hs, hboth, hblank, ⟨key, fun next target => ?_⟩, fun next => hnowhere next [] rfl⟩
  exact ⟨(hkey next target both).trans (if_pos rfl), (hkey next target blank).trans (if_neg hapart)⟩

end Question

end Questionnaire
