import Questionnaire.Proofs.Graph.Dangling
import Questionnaire.Proofs.Graph.Partition

/-! # Interactions with a graph

Interactions reach the questions of a graph in any order, and all questions send to one
mailbox. A question answers to its own interactions alone, so the others may be left out.
The mailbox holds one transition for every confirmed answer, in the order of the
interactions.
-/

namespace Questionnaire

namespace Question

variable {q : Question}

def Reports (q : Question) : Prop := q.widget.listeners = ⟨[.mailbox]⟩

def withAnswer (a : Answer) (q : Question) : Question :=
  { q with widget := q.widget.withAnswer a }

theorem exists_value_interact (h : q.Reports) (i : Interaction) (m : Mailbox) :
    ∃ a confirmed, (q.interact i m).value = ⟨q.withAnswer a,
      Option.elim confirmed m fun b => m.send (q.transition b), confirmed, []⟩ := by
  obtain ⟨⟨a, confirmed⟩, hr⟩ := Widget.exists_reacted i q.widget
  have hl : q.widget.listeners.toList = .mailbox :: ([] : List String).map .observer := by
    rw [h]
    rfl
  refine ⟨a, if confirmed then some a else none, (value_interact hl hr m).trans ?_⟩
  cases confirmed <;> rfl

end Question

namespace Graph

variable {g g' : Graph} {id id' : String} {q : Question}

def put (id : String) (q : Question) (g : Graph) : Graph :=
  { g with questions := g.questions.put id q }

theorem get?_put (g : Graph) (id id' : String) (q : Question) :
    (g.put id q).get? id' = if id' = id then some q else g.get? id' :=
  Table.get?_put g.questions id id' q

theorem interact_of_none (h : g.get? id = none) (i : Interaction) (m : Mailbox) :
    g.interact id i m = pure ⟨g, m, none⟩ := by
  rw [interact, h]

theorem value_interact (h : g.get? id = some q) (i : Interaction) (m : Mailbox) :
    (g.interact id i m).value = ⟨g.put id (q.interact i m).value.question,
      (q.interact i m).value.mailbox, (q.interact i m).value.confirmed⟩ := by
  simp [interact, h, put]

/-- What becomes of a question and what it confirms does not depend on the rest of the graph,
nor on the mailbox. -/
theorem interact_congr (h : g.get? id = g'.get? id) (i : Interaction) (m m' : Mailbox) :
    (g.interact id i m).value.graph.get? id = (g'.interact id i m').value.graph.get? id ∧
      (g.interact id i m).value.confirmed = (g'.interact id i m').value.confirmed := by
  cases hq : g.get? id with
  | none =>
    have hq' := h.symm.trans hq
    rw [interact_of_none hq, interact_of_none hq']
    exact ⟨h, rfl⟩
  | some q =>
    have hq' := h.symm.trans hq
    rw [value_interact hq, value_interact hq', get?_put, get?_put, if_pos rfl, if_pos rfl]
    exact ⟨rfl, rfl⟩

theorem get?_interact_of_ne (h : id' ≠ id) (i : Interaction) (m : Mailbox) :
    (g.interact id i m).value.graph.get? id' = g.get? id' := by
  cases hq : g.get? id with
  | none =>
    rw [interact_of_none hq]
    rfl
  | some q => rw [value_interact hq, get?_put, if_neg h]

theorem contains_interact (g : Graph) (id : String) (i : Interaction) (m : Mailbox)
    (id' : String) : (g.interact id i m).value.graph.contains id' = g.contains id' := by
  cases hq : g.get? id with
  | none =>
    rw [interact_of_none hq]
    rfl
  | some q =>
    change Option.isSome (Graph.get? id' _) = Option.isSome (g.get? id')
    rw [value_interact hq, get?_put]
    split
    · next hid => rw [hid, hq]; rfl
    · rfl

/-- Every question stands under its own id and reports to the mailbox alone. -/
def Wired (g : Graph) : Prop := ∀ id q, g.get? id = some q → q.id = id ∧ q.Reports

def report (g : Graph) (id : String) (a : Answer) : Transition :=
  ⟨id, a, (g.get? id).bind (·.nextFor a)⟩

/-- What a reply to an interaction has sent. -/
def sent (g : Graph) (reply : String × Option Answer) : Option Transition :=
  reply.2.map (g.report reply.1)

theorem Wired.named (hw : g.Wired) : g.Named := by
  intro id q hq
  exact (hw id q hq).1

theorem wired_build (outline : Outline) (context : Context) :
    (build outline context).value.1.Wired := by
  intro id q hq
  obtain ⟨spec, -, rfl⟩ := get?_build_eq_some_iff.mp hq
  rw [Question.value_create]
  exact ⟨rfl, rfl⟩

theorem Wired.put (hw : g.Wired) (hq : g.get? id = some q) (a : Answer) :
    (g.put id (q.withAnswer a)).Wired := by
  intro id' q' hq'
  rw [get?_put] at hq'
  by_cases hid : id' = id
  · rw [if_pos hid, Option.some.injEq] at hq'
    subst hid hq'
    exact hw id' q hq
  · rw [if_neg hid] at hq'
    exact hw id' q' hq'

theorem report_put (hq : g.get? id = some q) (a : Answer) :
    (g.put id (q.withAnswer a)).report = g.report := by
  funext id' b
  rw [report, report, get?_put]
  by_cases hid : id' = id
  · rw [if_pos hid, hid, hq]
    rfl
  · rw [if_neg hid]

theorem Wired.interact (hw : g.Wired) (id : String) (i : Interaction) (m : Mailbox) :
    let o := (g.interact id i m).value
    o.graph.Wired ∧ o.graph.report = g.report ∧
      o.mailbox = o.confirmed.elim m fun a => m.send (g.report id a) := by
  intro o
  cases hq : g.get? id with
  | none =>
    have ho : o = ⟨g, m, none⟩ := by
      simp only [o, interact_of_none hq]
      rfl
    rw [ho]
    exact ⟨hw, rfl, rfl⟩
  | some q =>
    obtain ⟨hid, hreports⟩ := hw id q hq
    obtain ⟨a, confirmed, hi⟩ := Question.exists_value_interact hreports i m
    have ho : o = ⟨g.put id (q.withAnswer a),
        confirmed.elim m fun b => m.send (q.transition b), confirmed⟩ := by
      simp only [o, value_interact hq, hi]
    have hsent : q.transition = g.report id := by
      funext b
      rw [Question.transition, report, hq, hid]
      rfl
    rw [ho, ← hsent]
    exact ⟨hw.put hq a, report_put hq a, rfl⟩

structure Delivered where
  graph : Graph
  mailbox : Mailbox
  replies : List (String × Option Answer)

/-- Delivers interactions one after another, each to the question of its id. -/
def deliver (m : Mailbox) (g : Graph) : List (String × Interaction) → Delivered
  | [] => ⟨g, m, []⟩
  | (id, i) :: inputs =>
    let o := (g.interact id i m).value
    let d := deliver o.mailbox o.graph inputs
    { d with replies := (id, o.confirmed) :: d.replies }

section Run

variable (inputs : List (String × Interaction))

theorem ids_replies_deliver (g : Graph) (m : Mailbox) :
    (g.deliver m inputs).replies.map Prod.fst = inputs.map Prod.fst := by
  induction inputs generalizing g m with
  | nil => rfl
  | cons input inputs ih => exact congrArg (input.1 :: ·) (ih _ _)

/-- The interactions with other questions can be left out. -/
theorem deliver_filter_id (h : g.get? id = g'.get? id) (m m' : Mailbox) :
    let d := g.deliver m inputs
    let own := g'.deliver m' (inputs.filter fun input => input.1 = id)
    d.graph.get? id = own.graph.get? id ∧
      d.replies.filter (fun reply => reply.1 = id) = own.replies := by
  induction inputs generalizing g g' m m' with
  | nil => exact ⟨h, rfl⟩
  | cons input inputs ih =>
    obtain ⟨id', i⟩ := input
    by_cases hid : id' = id
    · subst hid
      obtain ⟨hget, hconfirmed⟩ := interact_congr h i m m'
      obtain ⟨hgraph, hreplies⟩ := ih hget (g.interact id' i m).value.mailbox
        (g'.interact id' i m').value.mailbox
      simp only [List.filter_cons_of_pos, decide_true, deliver, hconfirmed]
      exact ⟨hgraph, congrArg _ hreplies⟩
    · -- the questions agree on the id before the interaction, and still do after it
      have hget := (get?_interact_of_ne (Ne.symm hid) i m).trans h
      obtain ⟨hgraph, hreplies⟩ := ih hget (g.interact id' i m).value.mailbox m'
      simp only [deliver, List.filter_cons, decide_eq_true_eq, if_neg hid]
      exact ⟨hgraph, hreplies⟩

theorem deliver_filter_contains (g : Graph) (m : Mailbox) :
    let d := g.deliver m inputs
    let known := g.deliver m (inputs.filter fun input => g.contains input.1)
    d.graph = known.graph ∧ d.mailbox = known.mailbox := by
  induction inputs generalizing g m with
  | nil => exact ⟨rfl, rfl⟩
  | cons input inputs ih =>
    obtain ⟨id, i⟩ := input
    have hrest := ih (g.interact id i m).value.graph (g.interact id i m).value.mailbox
    simp only [contains_interact] at hrest
    cases hc : g.contains id with
    | true =>
      simp only [List.filter_cons, hc, if_true, deliver]
      exact hrest
    | false =>
      rw [interact_of_none (contains_eq_false_iff.mp hc)] at hrest
      simp only [List.filter_cons, hc, deliver, interact_of_none (contains_eq_false_iff.mp hc)]
      exact hrest

theorem waiting_deliver (hw : g.Wired) {m : Mailbox} (hm : m.isOpen) :
    (g.deliver m inputs).mailbox.waiting =
      m.waiting ++ (g.deliver m inputs).replies.filterMap g.sent := by
  induction inputs generalizing g m with
  | nil => exact (List.append_nil _).symm
  | cons input inputs ih =>
    obtain ⟨id, i⟩ := input
    obtain ⟨hwired, hreport, hmailbox⟩ := hw.interact id i m
    have hsent : (g.interact id i m).value.graph.sent = g.sent := by
      funext reply
      rw [sent, sent, hreport]
    simp only [deliver, List.filterMap_cons, sent]
    cases hc : (g.interact id i m).value.confirmed with
    | none =>
      have hm' : (g.interact id i m).value.mailbox = m := by rw [hmailbox, hc, Option.elim_none]
      rw [ih hwired (by rwa [hm']), hsent, hm']
      rfl
    | some a =>
      have hm' : (g.interact id i m).value.mailbox =
          { m with waiting := m.waiting ++ [g.report id a] } := by
        rw [hmailbox, hc, Option.elim_some, Mailbox.send, if_pos hm]
      rw [ih hwired (by rwa [hm']), hsent, hm', List.append_assoc]
      rfl

theorem filter_filterMap_sent (g : Graph) (id : String) (replies : List (String × Option Answer)) :
    (replies.filterMap g.sent).filter (fun t => t.source = id) =
      (replies.filter fun reply => reply.1 = id).filterMap g.sent := by
  rw [List.filter_filterMap, List.filterMap_filter]
  refine congrArg (List.filterMap · replies) (funext fun reply => ?_)
  obtain ⟨id', confirmed⟩ := reply
  cases confirmed with
  | none => simp [sent]
  | some a => by_cases h : id' = id <;> simp [sent, report, Option.filter, h]

end Run

/-- The questions of a built graph do not interfere: what becomes of a question and what it
sends comes of its own interactions. Every confirmed answer is sent once, by the id of its
question and in the order of the interactions, and unknown ids change nothing. -/
theorem deliver_separates (outline : Outline) (context : Context)
    (inputs : List (String × Interaction)) :
    let g := (build outline context).value.1
    let d := g.deliver {} inputs
    (∀ id,
      let own := g.deliver {} (inputs.filter fun input => input.1 = id)
      d.graph.get? id = own.graph.get? id ∧
        d.replies.filter (fun reply => reply.1 = id) = own.replies ∧
        d.mailbox.waiting.filter (fun t => t.source = id) = own.mailbox.waiting) ∧
      d.replies.map Prod.fst = inputs.map Prod.fst ∧
      d.mailbox.waiting = d.replies.filterMap (fun reply => reply.2.map (g.report reply.1)) ∧
      let known := g.deliver {} (inputs.filter fun input => g.contains input.1)
      d.graph = known.graph ∧ d.mailbox = known.mailbox := by
  intro g d
  have hsent : ∀ is, (g.deliver {} is).mailbox.waiting =
      (g.deliver {} is).replies.filterMap g.sent := by
    intro is
    exact waiting_deliver is (wired_build outline context) rfl
  refine ⟨?_, ids_replies_deliver inputs g {}, hsent inputs, deliver_filter_contains inputs g {}⟩
  intro id own
  obtain ⟨hget, hreplies⟩ := deliver_filter_id inputs (rfl : g.get? id = g.get? id) {} {}
  refine ⟨hget, hreplies, ?_⟩
  calc d.mailbox.waiting.filter (fun t => t.source = id)
      = (d.replies.filterMap g.sent).filter (fun t => t.source = id) := by rw [hsent inputs]
    _ = (d.replies.filter fun reply => reply.1 = id).filterMap g.sent :=
        filter_filterMap_sent g id d.replies
    _ = own.replies.filterMap g.sent := by rw [hreplies]
    _ = own.mailbox.waiting := (hsent _).symm

example :
    let name : Json := .object [("format", .object [("type", .string "text")]),
      ("next", .object [("a", .string "1")]), ("title", .string "Name")]
    let color : Json := .object [("format", .object [("options", .array [.string "red"]),
      ("type", .string "select")]), ("next", .object [("red", .string "0")]),
      ("title", .string "Color")]
    let outline : Outline := ⟨"0", .ofList [("0", name), ("1", color)]⟩
    let g := (build outline ⟨.ofSources "" "" none "" "", .empty, {}⟩).value.1
    let d := g.deliver {} [("0", .input "a"), ("1", .click "red"), ("2", .confirm), ("0", .confirm)]
    d.mailbox.waiting = [⟨"1", ⟨["red"]⟩, some "0"⟩, ⟨"0", ⟨["a"]⟩, some "1"⟩] := by decide

end Graph

end Questionnaire
