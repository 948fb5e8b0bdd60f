import Questionnaire.Proofs.Markup.RoundTrip
import Questionnaire.Proofs.Placeholder.Holes
import Questionnaire.Template

/-! # Values put into a document

A document can have the placeholder of a text in the values of its attributes. Filling its markup
with the escaped text then gives the markup of the document with the text in these values: what is
escaped has no brace and no quote of its own that could be taken for one of the markup.
-/

namespace Questionnaire

namespace Text

variable {α : Type} [DecidableEq α]

/-- A text with every occurrence of a mark replaced, from left to right. -/
def replaceAll (mark new cs : List α) : List α :=
  match _h : cutAt? mark cs with
  | none => cs
  | some (before, behind) =>
    if _hm : mark = [] then cs else before ++ new ++ replaceAll mark new behind
termination_by cs.length
decreasing_by exact length_lt_of_cutAt? _hm _h

variable {mark cs a b : List α}

theorem replaceAll_of_none (new : List α) (h : cutAt? mark cs = none) :
    replaceAll mark new cs = cs := by
  rw [replaceAll]
  split
  · rfl
  · next h' => exact absurd (h.symm.trans h') nofun

theorem replaceAll_of_cutAt? (new : List α) (hm : mark ≠ []) (h : cutAt? mark cs = some (a, b)) :
    replaceAll mark new cs = a ++ (new ++ replaceAll mark new b) := by
  rw [replaceAll]
  split
  · next h' => exact absurd (h.symm.trans h') nofun
  · next h' =>
    obtain ⟨rfl, rfl⟩ := Prod.mk.inj (Option.some.inj (h.symm.trans h'))
    rw [dif_neg hm, List.append_assoc]

end Text

namespace Markup

open Text

def hole : List Char := "\x7bvalue\x7d".toList

/-- A value with a text in its placeholders. -/
def put (text value : String) : String :=
  String.ofList (replaceAll hole text.toList value.toList)

def Tag.mapValues (f : String → String) (t : Tag) : Tag :=
  { t with attributes := t.attributes.map fun a => (a.1, a.2.map f) }

def putText (text : String) (ns : List Node) : List Node := mapTags (Tag.mapValues (put text)) ns

/-- Outside of the placeholders in its attribute values a document has no brace. -/
def Holed (ns : List Node) : Prop := Marks.field.Free (Node.charsList (putText "" ns))

instance (ns : List Node) : Decidable (Holed ns) := List.decidableBAll _ _

section Filling

variable (text : String)

def textField : Bindings := Table.ofList [("value", escapeAttribute text)]

theorem free_escapeChar (c : Char) : Marks.field.Free (escapeChar c) ↔ Marks.field.Free [c] := by
  rw [escapeChar.eq_def]
  split
  · decide
  · decide
  · decide
  · decide
  · rfl

theorem free_escape {cs : List Char} : Marks.field.Free (escape cs) ↔ Marks.field.Free cs := by
  induction cs with
  | nil => rfl
  | cons c cs ih => rw [escape_cons, Marks.free_append, free_escapeChar, ih, ← Marks.free_cons]

theorem escape_append (a b : List Char) : escape (a ++ b) = escape a ++ escape b :=
  List.flatMap_append

theorem escape_hole : escape hole = hole := by decide

theorem filling_escape {cs : List Char} (h : Marks.field.Free (replaceAll hole [] cs)) :
    Filling .field (textField text) (escape cs) (escape (replaceAll hole text.toList cs)) := by
  have hhole : hole ≠ [] := by decide
  fun_induction replaceAll hole [] cs with
  | case1 cs hcut =>
    rw [replaceAll_of_none _ hcut]
    exact .text (free_escape.mpr h)
  | case2 cs before behind hcut hm => exact absurd hm hhole
  | case3 cs before behind hcut hm ih =>
    rw [List.append_nil, Marks.free_append] at h
    obtain ⟨hbefore, hbehind⟩ := h
    have hkey : (textField text).get? (String.ofList "value".toList) =
        some (escapeAttribute text) := by simp [textField, Table.get?_ofList]
    have hfilled := Filling.hole (m := .field) (free_escape.mpr hbefore)
      (firstAt_singleton_iff.mpr (by decide)) (by decide) hkey (ih hbehind)
    have htext : (escapeAttribute text).toList = escape text.toList := String.toList_ofList
    rw [htext] at hfilled
    rw [replaceAll_of_cutAt? _ hhole hcut, eq_append_of_cutAt? hcut, List.append_assoc]
    simp only [escape_append, escape_hole]
    exact hfilled

theorem filling_attributeChars (name : String) (v : Option String)
    (h : Marks.field.Free (Tag.attributeChars (name, v.map (put "")))) :
    Filling .field (textField text) (Tag.attributeChars (name, v))
      (Tag.attributeChars (name, v.map (put text))) := by
  cases v with
  | none => exact .text h
  | some v =>
    have heq (w : List Char) : Tag.attributeChars (name, some (String.ofList w)) =
        ' ' :: (name.toList ++ ['=', '"']) ++ (escape w ++ ['"']) := by
      simp [Tag.attributeChars]
    rw [Option.map_some, put, heq, Marks.free_append, Marks.free_append, free_escape] at h
    obtain ⟨hname, hvalue, hquote⟩ := h
    rw [Option.map_some, put, heq, ← String.ofList_toList (s := v), heq, String.toList_ofList]
    exact ((filling_escape text hvalue).append (.text hquote)).append_free hname

theorem filling_attributes {as : List (String × Option String)}
    (h : Marks.field.Free
      ((as.map fun a => (a.1, a.2.map (put ""))).flatMap Tag.attributeChars)) :
    Filling .field (textField text) (as.flatMap Tag.attributeChars)
      ((as.map fun a => (a.1, a.2.map (put text))).flatMap Tag.attributeChars) := by
  induction as with
  | nil => exact .text h
  | cons a as ih =>
    rw [List.map_cons, List.flatMap_cons, Marks.free_append] at h
    rw [List.map_cons, List.flatMap_cons, List.flatMap_cons]
    exact (filling_attributeChars text a.1 a.2 h.1).append (ih h.2)

theorem filling_tagChars {t : Tag} (h : Marks.field.Free (t.mapValues (put "")).chars) :
    Filling .field (textField text) t.chars (t.mapValues (put text)).chars := by
  rw [Tag.chars, Marks.free_append, Marks.free_append] at h
  obtain ⟨⟨hname, has⟩, hbracket⟩ := h
  exact ((filling_attributes text has).append_free hname).append (.text hbracket)

/-- Filling the markup of a document fills the values of its attributes. -/
theorem filling_charsList {ns : List Node} (h : Holed ns) :
    Filling .field (textField text) (Node.charsList ns) (Node.charsList (putText text ns)) := by
  rw [Holed] at h
  simp only [putText, mapTags] at h ⊢
  induction ns using Node.list_induction with
  | nil => exact .text h
  | element t cs ns ihc ihn =>
    have hvoid (v : String) : (t.mapValues (put v)).isVoid = t.isVoid := rfl
    have hclosing (v : String) : (t.mapValues (put v)).closingChars = t.closingChars := rfl
    simp only [Node.mapTagsList, Node.mapTags, Node.charsList, Node.chars, hvoid, hclosing,
      Marks.free_append] at h ⊢
    refine Filling.append ?_ (ihn h.2)
    -- A void element is its start tag; any other has its children and its closing tag behind it.
    cases hv : t.isVoid with
    | true =>
      simp only [hv, if_true] at h ⊢
      exact filling_tagChars text h.1
    | false =>
      simp only [hv, Bool.false_eq_true, if_false, Marks.free_append] at h ⊢
      obtain ⟨⟨⟨htag, hcs⟩, hend⟩, -⟩ := h
      exact ((filling_tagChars text htag).append (ihc hcs)).append (.text hend)
  | leaf n ns hn ih =>
    simp only [Node.mapTagsList, Node.charsList, Node.mapTags_leaf _ hn, Marks.free_append] at h ⊢
    exact (ih h.2).append_free h.1

end Filling

section WellFormed

variable (f : String → String)

theorem Tag.WellFormed.mapValues {t : Tag} (h : t.WellFormed) : (t.mapValues f).WellFormed where
  letter := h.letter
  name := h.name
  attributes a ha := by
    obtain ⟨b, hb, rfl⟩ := List.mem_map.mp ha
    exact h.attributes b hb

theorem Node.WellFormedList.mapValues {ns : List Node} (h : WellFormedList ns) :
    WellFormedList (mapTagsList (Tag.mapValues f) ns) := by
  have htext (n : Node) : (n.mapTags (Tag.mapValues f)).isText = n.isText := by cases n <;> rfl
  have hhead (ns : List Node) :
      (mapTagsList (Tag.mapValues f) ns).head?.any isText = ns.head?.any isText := by
    cases ns with
    | nil => rfl
    | cons n ns => exact htext n
  induction ns using list_induction with
  | nil => trivial
  | element t cs ns ihc ihn =>
    obtain ⟨⟨ht, hcs⟩, hapart, hns⟩ := h
    refine ⟨⟨ht.mapValues f, ?_⟩, by rwa [htext, hhead], ihn hns⟩
    change if t.isVoid then _ else if t.isRaw then _ else _
    by_cases hv : t.isVoid = true
    · rw [if_pos hv] at hcs ⊢
      rw [hcs, mapTagsList]
    rw [if_neg hv] at hcs ⊢
    by_cases hr : t.isRaw = true
    · rw [if_pos hr] at hcs ⊢
      rcases Tag.rawBody_iff.mp hcs with rfl | ⟨s, rfl, hne, hs⟩
      · trivial
      · exact ⟨hne, hs⟩
    · rw [if_neg hr] at hcs ⊢
      exact ihc hcs
  | leaf n ns hn ih =>
    obtain ⟨hwf, hapart, hns⟩ := h
    exact ⟨by rwa [mapTags_leaf _ hn], by rwa [htext, hhead], ih hns⟩

end WellFormed

end Markup

open Markup (Node html)

/-- A template that is the markup of a document is instantiated to the document that its filled
markup is printed from. -/
theorem Template.instantiate_of_filling {template : Template} {fields : Bindings}
    {ns ms : List Node} (hs : template.source = html ns) (hm : Node.WellFormedList ms)
    (hf : Filling .field fields (Node.charsList ns) (Node.charsList ms)) :
    template.instantiate fields = pure ms := by
  have hfill : fill .field fields (html ns) = pure (html ms) := by
    rw [fill, fillWith, html, hf.fillReport_eq (by decide) (by decide)]
    rfl
  have htokens : Markup.Token.all (Node.charsList ms) = Node.tokensList ms := by
    have := Node.all_charsList hm (r := []) (by simp [Node.Bracketed])
    rwa [List.append_nil, Markup.Token.all, List.append_nil] at this
  have hparse : Markup.parse (html ms) = ms := by
    rw [Markup.parse, html, String.toList_ofList, Markup.parseChars, htokens, Markup.ofTokens,
      Markup.Builder.foldl_step_tokensList hm]
    simp [Markup.Builder.append, Markup.Builder.finish, Markup.Builder.closeAll]
  rw [instantiate, hs, hfill, map_pure, hparse]

end Questionnaire
