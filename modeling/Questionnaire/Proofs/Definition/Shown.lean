import Questionnaire.Definition
import Questionnaire.Proofs.Markup.Front
import Questionnaire.Proofs.Markup.Quoted
import Questionnaire.Proofs.Placeholder.Holes

/-! # Definitions on display

A term is shown by a link with its definition, both put between the quotes of a fragment as they
are and read from there. Each of them can end its quotes or have a reference that is read, so a
term is shown as it is written exactly if neither does.
-/

namespace Questionnaire.Terminology

open Markup (Node Tag Token Verbatim quoted)
open Text

variable {link definition term : List Char}

def linkChars (link definition term : List Char) : List Char :=
  "<a href=\"".toList ++ (link ++ ("\" title=\"".toList ++ (definition ++ ("\">".toList ++
    (term ++ "</a>".toList)))))

def linkFragment : String :=
  "<a href=\"\x7blink\x7d\" title=\"\x7bdefinition\x7d\">\x7btext\x7d</a>"

section Expand

theorem define_linkFragment (defaultLink term : String) (e : TermEntry) :
    define linkFragment defaultLink term e = pure (String.ofList
      (linkChars (e.linkOr defaultLink).toList e.definition.toList term.toList)) := by
  let data := fragmentData defaultLink term e
  have hlink : data.get? (String.ofList "link".toList) = some (e.linkOr defaultLink) := by
    simp [data, fragmentData, Table.get?_ofList]
  have hdefinition : data.get? (String.ofList "definition".toList) = some e.definition := by
    simp [data, fragmentData, Table.get?_ofList, lookup_cons_eq]
  have htext : data.get? (String.ofList "text".toList) = some term := by
    simp [data, fragmentData, Table.get?_ofList, lookup_cons_eq]
  have hkey {key : List Char} (h : '\x7d' ∉ key) : FirstAt Marks.field.closing key :=
    firstAt_singleton_iff.mpr h
  have hend : Filling .field data "</a>".toList "</a>".toList := .text (by decide)
  have hterm := Filling.hole (by decide : Marks.field.Free "\">".toList) (hkey (by decide))
    (by decide) htext hend
  have htitle := Filling.hole (by decide : Marks.field.Free "\" title=\"".toList)
    (hkey (by decide)) (by decide) hdefinition hterm
  have hfilling : Filling .field data linkFragment.toList _ :=
    .hole (by decide : Marks.field.Free "<a href=\"".toList) (hkey (by decide)) (by decide) hlink
      htitle
  have hfilled := hfilling.fillReport_eq (by decide) (by decide)
  rw [String.ofList_toList] at hfilled
  rw [define, fill, fillWith, hfilled]
  rfl

theorem value_expand {t : Terminology} {term : String} {e : TermEntry} (he : t.get? term = some e)
    (hc : ']' ∉ term.toList) (hl : '\n' ∉ term.toList) (defaultLink : String) :
    (t.expand linkFragment defaultLink ("[" ++ term ++ "]")).value = String.ofList
      (linkChars (e.linkOr defaultLink).toList e.definition.toList term.toList) := by
  let definitions := (t.definitions linkFragment defaultLink).value
  let shown := linkChars (e.linkOr defaultLink).toList e.definition.toList term.toList
  have hdefinition : definitions.get? (String.ofList term.toList) = some (String.ofList shown) := by
    rw [String.ofList_toList]
    simp only [definitions, Terminology.definitions, Table.get?_mapWithKey, he,
      define_linkFragment, Option.map_some, Logged.value_pure, shown]
  have hend : Filling .term definitions [] [] := .text (by decide)
  have hfilling : Filling .term definitions ("[" ++ term ++ "]").toList shown := by
    simpa [Marks.term] using Filling.hole (by decide : Marks.term.Free [])
      (firstAt_singleton_iff.mpr hc) hl hdefinition hend
  have hfilled := hfilling.fillReport_eq (by decide) (by decide)
  rw [String.ofList_toList] at hfilled
  change (fillReport .term definitions ("[" ++ term ++ "]")).markup = String.ofList shown
  rw [hfilled]

end Expand

section Parse

variable (link definition term)

def attributeChars : List Char :=
  ' ' :: ("href".toList ++ '=' :: '"' :: (link ++ '"' ::
    ' ' :: ("title".toList ++ '=' :: '"' :: (definition ++ '"' :: '>' :: (term ++ "</a>".toList)))))

theorem linkChars_eq :
    linkChars link definition term = '<' :: 'a' :: attributeChars link definition term := by
  unfold linkChars attributeChars
  simp

theorem ofChars?_attributeChars : Tag.ofChars? ('a' :: attributeChars link definition term) =
    (Tag.attributes? (attributeChars link definition term)).map fun (as, selfClosing, rest) =>
      (⟨"a", as⟩, selfClosing, rest) := by
  have hname : Markup.Plain ['/', '>'] ['a'] := by decide
  have hstop : ∀ x ∈ (attributeChars link definition term).head?, Tag.endsName x = true := by
    rintro x ⟨⟩
    decide
  rw [← List.singleton_append, Tag.ofChars?_append hname hstop]

theorem exists_attributes?_attributeChars : ∃ behind,
    Tag.attributes? (attributeChars link definition term) =
      (Tag.attributes? behind).map (fun (as, selfClosing, rest) =>
        (("href", some (String.ofList (quoted link))) :: as, selfClosing, rest)) ∧
    ('"' ∉ link → ∃ behind', Tag.attributes? behind =
      (Tag.attributes? behind').map (fun (as, selfClosing, rest) =>
        (("title", some (String.ofList (quoted definition))) :: as, selfClosing, rest)) ∧
      ('"' ∉ definition → behind' = '>' :: (term ++ "</a>".toList))) := by
  obtain ⟨behind, hhref, hbehind⟩ := Tag.exists_attributes?_quote (by decide : "href" ≠ "")
    (by decide) link (' ' :: ("title".toList ++ '=' :: '"' :: (definition ++ '"' :: '>' ::
      (term ++ "</a>".toList))))
  refine ⟨behind, hhref, fun hq => ?_⟩
  rw [hbehind hq]
  exact Tag.exists_attributes?_quote (by decide) (by decide) definition _

variable {link definition term}

theorem attributes_of_head? {tag : Tag}
    (h : (Markup.parseChars (linkChars link definition term)).head?.map Node.tag? =
      some (some tag)) :
    tag.attribute? "href" = some (String.ofList (quoted link)) ∧
      ('"' ∉ link → tag.attribute? "title" = some (String.ofList (quoted definition))) := by
  rw [linkChars_eq] at h
  obtain ⟨selfClosing, rest, htag⟩ := Markup.exists_ofChars?_of_head? (by decide) h
  obtain ⟨behind, hhref, hbehind⟩ := exists_attributes?_attributeChars link definition term
  rw [ofChars?_attributeChars, hhref, Option.map_map] at htag
  obtain ⟨⟨as, _, _⟩, has, hread⟩ := Option.map_eq_some_iff.mp htag
  obtain ⟨rfl, -⟩ := Prod.mk.inj hread
  constructor
  · rfl
  · intro hq
    obtain ⟨behind', htitle, -⟩ := hbehind hq
    obtain ⟨⟨bs, _, _⟩, -, hread⟩ := Option.map_eq_some_iff.mp (htitle.symm.trans has)
    obtain ⟨rfl, -⟩ := Prod.mk.inj hread
    rfl

/-- Without quotes in the link and the definition, the markup is one element, and they are shown as
they are read between quotes. -/
theorem parseChars_linkChars (hlink : '"' ∉ link) (hdefinition : '"' ∉ definition)
    (hterm : '<' ∉ term) : Markup.parseChars (linkChars link definition term) =
      [.element ⟨"a", [("href", some (String.ofList (quoted link))),
          ("title", some (String.ofList (quoted definition)))]⟩
        (if term = [] then [] else [.text (String.ofList term)])] := by
  let tag : Tag := ⟨"a", [("href", some (String.ofList (quoted link))),
    ("title", some (String.ofList (quoted definition)))]⟩
  have htag : Tag.ofChars? ('a' :: attributeChars link definition term) =
      some (tag, false, term ++ "</a>".toList) := by
    obtain ⟨behind, hhref, hbehind⟩ := exists_attributes?_attributeChars link definition term
    obtain ⟨behind', htitle, hbehind'⟩ := hbehind hlink
    rw [ofChars?_attributeChars, hhref, htitle, hbehind' hdefinition,
      Tag.attributes?_of_closed (Markup.trimStart_cons_of_not_blank (by decide) _)]
    rfl
  have hclose : Token.all "</a>".toList = [.close "a"] := by decide +kernel
  have hall : Token.all (linkChars link definition term) =
      .start tag false :: ((if term = [] then [] else [.text (String.ofList term)]) ++
        [.close "a"]) := by
    rw [linkChars_eq, Token.all_cons_of_next (Token.next_of_letter (by decide) htag) rfl]
    congr 1
    cases term with
    | nil => exact hclose
    | cons c cs =>
      rw [List.cons_append, Token.all_cons_of_next (Token.next_text hterm (by simp)) rfl, hclose]
      rfl
  rw [Markup.parseChars, hall]
  by_cases ht : term = []
  · rw [if_pos ht, if_pos ht]
    rfl
  · rw [if_neg ht, if_neg ht]
    rfl

end Parse

/-- The document is one link with the term as its text, and it has the link and the definition as
they are written. -/
def Shows (term definition link : String) (ns : List Node) : Prop :=
  ∃ tag children, ns = [.element tag children] ∧ tag.name = "a" ∧
    tag.attribute? "title" = some definition ∧ tag.attribute? "href" = some link ∧
    Markup.textContent children = term

theorem ofList_quoted_eq_iff {s : String} :
    String.ofList (quoted s.toList) = s ↔ Verbatim s.toList := by
  rw [← Markup.quoted_eq_self_iff, ← String.toList_inj, String.toList_ofList]

/-- A term of a terminology is shown as it is written exactly if neither its link nor its definition
ends the quotes that it is put between or has a reference that is read there. -/
theorem shows_iff_verbatim {t : Terminology} {term : String} {e : TermEntry}
    (he : t.get? term = some e) (hc : ']' ∉ term.toList) (hb : '<' ∉ term.toList)
    (hl : '\n' ∉ term.toList) (defaultLink : String) :
    let fragment := "<a href=\"\x7blink\x7d\" title=\"\x7bdefinition\x7d\">\x7btext\x7d</a>"
    let link := e.linkOr defaultLink
    Shows term e.definition link
        (Markup.parse (t.expand fragment defaultLink ("[" ++ term ++ "]")).value) ↔
      Verbatim link.toList ∧ Verbatim e.definition.toList := by
  intro fragment link
  have hvalue : (t.expand fragment defaultLink ("[" ++ term ++ "]")).value =
      String.ofList (linkChars link.toList e.definition.toList term.toList) :=
    value_expand he hc hl defaultLink
  rw [hvalue, Markup.parse, String.toList_ofList, ← ofList_quoted_eq_iff, ← ofList_quoted_eq_iff]
  constructor
  · rintro ⟨tag, children, hparse, -, htitle, hhref, -⟩
    obtain ⟨hlink, hdefinition⟩ := attributes_of_head? (congrArg (·.head?.map Node.tag?) hparse)
    -- The title is known only once the link is: one that ends its quotes would hide it.
    have hread := Option.some.inj (hlink.symm.trans hhref)
    have hquote := (ofList_quoted_eq_iff.mp hread).quote
    exact ⟨hread, Option.some.inj ((hdefinition hquote).symm.trans htitle)⟩
  · rintro ⟨hlink, hdefinition⟩
    have hparse := parseChars_linkChars (ofList_quoted_eq_iff.mp hlink).quote
      (ofList_quoted_eq_iff.mp hdefinition).quote hb
    rw [hlink, hdefinition] at hparse
    refine ⟨_, _, hparse, rfl, rfl, rfl, ?_⟩
    cases hterm : term.toList with
    | nil => rw [if_pos rfl, ← String.toList_inj, hterm]; rfl
    | cons c cs =>
      rw [if_neg (List.cons_ne_nil c cs), ← hterm, String.ofList_toList]
      simp [Markup.textContent, Node.textCharsList, Node.textChars]

/-- Ampersands that begin no reference, brackets and marks are shown as they are written. -/
theorem shows_verbatim_marked :
    let e : TermEntry := ⟨"AT&T <b>\x7blink\x7d & [weed];", some "/g?a=1&b=2#[x]"⟩
    let t : Terminology := .ofList [("a [b & \"c\"", e), ("weed", ⟨"Unwanted", none⟩)]
    let term := "a [b & \"c\""
    t.get? term = some e ∧ ']' ∉ term.toList ∧ '<' ∉ term.toList ∧ '\n' ∉ term.toList ∧
      Verbatim (e.linkOr "#").toList ∧ Verbatim e.definition.toList ∧
      Shows term e.definition "/g?a=1&b=2#[x]" (Markup.parse
        (t.expand "<a href=\"\x7blink\x7d\" title=\"\x7bdefinition\x7d\">\x7btext\x7d</a>" "#"
          ("[" ++ term ++ "]")).value) := by
  intro e t term
  have he : t.get? term = some e := by decide +kernel
  have hc : ']' ∉ term.toList := by decide +kernel
  have hb : '<' ∉ term.toList := by decide +kernel
  have hl : '\n' ∉ term.toList := by decide +kernel
  have hlink : Verbatim (e.linkOr "#").toList := by decide +kernel
  have hdefinition : Verbatim e.definition.toList := by decide +kernel
  exact ⟨he, hc, hb, hl, hlink, hdefinition,
    (shows_iff_verbatim he hc hb hl "#").mpr ⟨hlink, hdefinition⟩⟩

/-- A quote in a definition ends the title. -/
theorem not_shows_quote :
    let e : TermEntry := ⟨"say \"hi\"", none⟩
    let t : Terminology := .ofList [("weed", e)]
    t.get? "weed" = some e ∧ ']' ∉ "weed".toList ∧ '<' ∉ "weed".toList ∧ '\n' ∉ "weed".toList ∧
      ¬ Shows "weed" e.definition (e.linkOr "#") (Markup.parse
        (t.expand "<a href=\"\x7blink\x7d\" title=\"\x7bdefinition\x7d\">\x7btext\x7d</a>" "#"
          "[weed]").value) := by
  intro e t
  refine ⟨by decide +kernel, by decide, by decide, by decide, ?_⟩
  rintro ⟨tag, children, hparse, -, htitle, -⟩
  have hshown : Markup.parse (t.expand
      "<a href=\"\x7blink\x7d\" title=\"\x7bdefinition\x7d\">\x7btext\x7d</a>" "#" "[weed]").value =
      [.element ⟨"a", [("href", some "#"), ("title", some "say "), ("hi\"\"", none)]⟩
        [.text "weed"]] := by decide +kernel
  obtain ⟨rfl, -⟩ := Node.element.inj (List.cons.inj (hparse.symm.trans hshown)).1
  exact absurd htitle (by decide)

end Questionnaire.Terminology
