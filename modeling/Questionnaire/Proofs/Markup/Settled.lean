import Questionnaire.Proofs.Markup.Order

/-! # Nodes that stay

A node that has ended stays at its place in document order, whatever is read after it. An open
element has one place, which it keeps when it is ended. So a well formed element is in the document
of every markup in which it stands, if nothing in front of it is left open that it could be part of.
-/

namespace Questionnaire.Markup

namespace Builder

def slots (roots : List Node) : List Element → List (Option Node)
  | [] => (Node.inOrderList roots).map some
  | e :: es => slots roots es ++ none :: (Node.inOrderList e.children).map some

/-- What has been built in document order. An open element may still grow and is left blank. -/
def places (b : Builder) : List (Option Node) := slots b.roots b.opened

variable {roots ns : List Node} {e : Element} {es : List Element} {b : Builder} {i : Nat} {n : Node}

theorem places_append (ns : List Node) (b : Builder) :
    (b.append ns).places = b.places ++ (Node.inOrderList ns).map some := by
  rcases b with ⟨roots, _ | ⟨e, es⟩⟩ <;> simp [append, places, slots]

theorem places_opened (ns roots : List Node) (e : Element) (es : List Element) :
    (append ns ⟨roots, e :: es⟩).places =
      slots roots es ++ none :: (Node.inOrderList (e.children ++ ns)).map some := rfl

theorem places_shut (ns roots : List Node) (e : Element) (es : List Element) :
    (append [.element e.tag (e.children ++ ns)] ⟨roots, es⟩).places =
      slots roots es ++ some (.element e.tag (e.children ++ ns)) ::
        (Node.inOrderList (e.children ++ ns)).map some := by
  rw [places_append]
  simp [places]

theorem length_places (b : Builder) : b.places.length = (Node.inOrderList b.finish).length := by
  have hfinish : (⟨b.finish, []⟩ : Builder).places.length = b.places.length := by
    refine finish_of_shut (P := fun b' => b'.places.length = b.places.length) ?_ rfl
    intro roots ns e es h
    rw [places_opened] at h
    rw [places_shut, ← h]
    simp
  rw [← hfinish]
  simp [places, slots]

/-- The node at a place has ended. -/
def Settled (i : Nat) (n : Node) (b : Builder) : Prop := b.places[i]? = some (some n)

theorem settled_append (t : Tag) (cs : List Node) (b : Builder) :
    (b.append [.element t cs]).Settled b.places.length (.element t cs) := by
  simp [Settled, places_append]

theorem Settled.append (h : b.Settled i n) (ns : List Node) : (b.append ns).Settled i n := by
  obtain ⟨hi, hn⟩ := List.getElem?_eq_some_iff.mp h
  rw [Settled, places_append, List.getElem?_append_left hi]
  exact h

theorem Settled.shut (h : (Builder.append ns ⟨roots, e :: es⟩).Settled i n) :
    (Builder.append [Node.element e.tag (e.children ++ ns)] ⟨roots, es⟩).Settled i n := by
  rw [Settled, places_opened] at h
  rw [Settled, places_shut]
  -- only the place of `e` is filled in, and that one is not `i`
  rcases Nat.lt_trichotomy i (slots roots es).length with hi | rfl | hi
  · rwa [List.getElem?_append_left hi] at h ⊢
  · simp at h
  · obtain ⟨k, rfl⟩ := Nat.exists_eq_add_of_lt hi
    rw [List.getElem?_append_right (by omega)] at h ⊢
    have hk : (slots roots es).length + k + 1 - (slots roots es).length = k + 1 := by omega
    rwa [hk, List.getElem?_cons_succ] at h ⊢

theorem Settled.step (h : b.Settled i n) (t : Token) : (b.step t).Settled i n := by
  cases t with
  | start tag selfClosing =>
    rw [Builder.step]
    split
    · exact h.append _
    · obtain ⟨hi, -⟩ := List.getElem?_eq_some_iff.mp h
      exact (List.getElem?_append_left hi).trans h
  | close name =>
    rw [Builder.step]
    split
    · exact closeThrough_of_shut (P := (Settled i n)) Settled.shut name (by rwa [append_nil])
    · exact h
  | text s => exact h.append _
  | comment s => exact h.append _
  | declaration s => exact h.append _

theorem Settled.foldl (h : b.Settled i n) (ts : List Token) :
    (ts.foldl Builder.step b).Settled i n := by
  induction ts generalizing b with
  | nil => exact h
  | cons t ts ih => exact ih (h.step t)

theorem Settled.finish (h : b.Settled i n) : (Node.inOrderList b.finish)[i]? = some n := by
  have hfinish := finish_of_shut (P := (Settled i n)) Settled.shut h
  simpa [Settled, places, slots] using hfinish

end Builder

namespace Token

/-- Nothing is open at the end of the text, no tag, comment or raw body: what begins with a bracket
behind it has its own tokens. -/
def Complete (cs : List Char) : Prop := ∀ r, Node.Bracketed r → all (cs ++ r) = all cs ++ all r

theorem complete_charsList {ns : List Node} (h : Node.WellFormedList ns) :
    Complete (Node.charsList ns) := by
  intro r hr
  have hnil := Node.all_charsList h (r := []) (by simp [Node.Bracketed])
  rw [List.append_nil, all, List.append_nil] at hnil
  rw [hnil, Node.all_charsList h hr]

/-- The place behind a start tag may be inside an element that is open. -/
theorem complete_chars {tag : Tag} (h : tag.WellFormed) (hr : tag.isRaw = false) :
    Complete tag.chars := by
  intro r _
  have hnil := all_start h hr []
  rw [List.append_nil, all] at hnil
  rw [hnil, all_start h hr]
  rfl

end Token

/-- A well formed element is in the document, behind the nodes of the markup in front of it. -/
theorem getElem?_parseChars_append {before : List Char} (hbefore : Token.Complete before) {t : Tag}
    {cs : List Node} (h : (Node.element t cs).WellFormed) (after : List Char) :
    (Node.inOrderList (parseChars (before ++ ((Node.element t cs).chars ++ after))))[
      (Node.inOrderList (parseChars before)).length]? = some (.element t cs) := by
  have hall : Token.all (before ++ ((Node.element t cs).chars ++ after)) =
      Token.all before ++ ((Node.element t cs).tokens ++ Token.all after) := by
    rw [← Node.all_element h (fun hc _ hr => Node.all_charsList hc hr)]
    exact hbefore _ (Node.bracketed_chars h rfl _)
  have hbuilt (b : Builder) :
      (Node.tokens (.element t cs)).foldl Builder.step b = b.append [.element t cs] := by
    have hlist : Node.WellFormedList [.element t cs] := ⟨h, by simp [Node.isText], trivial⟩
    simpa [Node.tokensList] using Builder.foldl_step_tokensList hlist b
  have hsettled := Builder.settled_append t cs (Builder.after (Token.all before))
  rw [Builder.length_places, ← hbuilt, Builder.after, ← List.foldl_append] at hsettled
  have hnode := (hsettled.foldl (Token.all after)).finish
  rwa [← List.foldl_append, List.append_assoc, ← hall] at hnode

end Questionnaire.Markup
