import Questionnaire.Markup.Parser
import Questionnaire.Proofs.Markup.Lookup
import Questionnaire.Proofs.Markup.WellFormed

/-! # Reading printed trees

The markup of a well formed tree is cut into the tokens of the tree, whatever
markup follows, and the tokens of a tree build that tree again.
-/

namespace Questionnaire.Markup

open Text

namespace Node

mutual

def tokens : Node → List Token
  | .element t cs =>
    if t.isVoid then [.start t false] else .start t false :: tokensList cs ++ [.close t.name]
  | .text s => [.text s]
  | .comment s => [.comment s]
  | .declaration s => [.declaration s]

def tokensList : List Node → List Token
  | [] => []
  | n :: ns => n.tokens ++ tokensList ns

end

end Node

theorem Tag.chars_append (t : Tag) (r : List Char) :
    t.chars ++ r = '<' :: (t.name.toList ++ Tag.restChars t.attributes r) := by
  simp [Tag.chars, Tag.restChars]

theorem Tag.isRaw_of_isVoid {t : Tag} (h : t.isVoid = true) : t.isRaw = false := by
  have hd : ∀ n ∈ Tag.voidNames, Tag.rawNames.contains n = false := by decide
  exact hd t.name (List.contains_iff_mem.mp h)

theorem Tag.bracket_not_mem_of_isRaw {t : Tag} (h : t.isRaw = true) : '<' ∉ t.name.toList := by
  have hd : ∀ n ∈ Tag.rawNames, '<' ∉ n.toList := by decide
  exact hd t.name (List.contains_iff_mem.mp h)

theorem beginsClosing_iff {name : String} {cs : List Char} :
    Token.beginsClosing name cs = true ↔
      '<' :: '/' :: name.toList <+: cs.map Char.toLower := by
  rw [Token.beginsClosing, decide_eq_true_iff, List.map_take, List.prefix_iff_eq_take]
  exact eq_comm

namespace Token

theorem rawBody_append {t : Tag} (h : t.WellFormed) (hr : t.isRaw = true) {a : List Char}
    (ha : ¬ '<' :: '/' :: t.name.toList <:+: a.map Char.toLower) (r : List Char) :
    rawBody t.name (a ++ (t.closingChars ++ r)) = (a, t.closingChars ++ r) := by
  have hlow := h.name.map_toLower
  have hx : '<' ∉ '/' :: t.name.toList := by simp [Tag.bracket_not_mem_of_isRaw hr]
  rw [rawBody, cutBefore?_append _ _, Option.getD_some]
  · rintro p q rfl hq
    rw [Bool.eq_false_iff, ne_eq, beginsClosing_iff, List.map_append]
    apply not_prefix_append hx (by simpa using hq)
    intro hi
    apply ha
    rw [List.map_append]
    exact hi.trans (List.suffix_append _ _).isInfix
  · rw [beginsClosing_iff]
    exact ⟨'>' :: r.map Char.toLower, by simp [Tag.closingChars, hlow]⟩

section Next

variable {c : Char} {b cs r behind : List Char} {t : Token}

theorem all_cons (hn : next c cs = (t, behind)) (hb : t.body behind = (b, r)) :
    all (c :: cs) = t :: (if b.isEmpty then [] else [.text (String.ofList b)]) ++ all r := by
  rw [all]
  split
  next hn' =>
    obtain ⟨rfl, rfl⟩ := Prod.mk.inj (hn.symm.trans hn')
    split
    next hb' =>
      obtain ⟨rfl, rfl⟩ := Prod.mk.inj (hb.symm.trans hb')
      rfl

theorem all_cons_of_next (hn : next c cs = (t, r)) (hb : t.body r = ([], r)) :
    all (c :: cs) = t :: all r := by
  simpa using all_cons hn hb

theorem next_letter {d : Char} (hl : isLetter d = true) (cs : List Char) :
    next '<' (d :: cs) = match Tag.ofChars? (d :: cs) with
      | some (tag, selfClosing, rest) => (.start tag selfClosing, rest)
      | none => textAt '<' (d :: cs) := by
  have hne : d ≠ '!' ∧ d ≠ '?' ∧ d ≠ '/' := by
    refine ⟨?_, ?_, ?_⟩ <;> rintro rfl <;> exact absurd hl (by decide)
  rw [next.eq_def, if_pos rfl]
  split
  · next he => exact absurd (List.cons.inj he).1 hne.1
  · next he => exact absurd (List.cons.inj he).1 hne.1
  · next he => exact absurd (List.cons.inj he).1 hne.2.1
  · next he => exact absurd (List.cons.inj he).1 hne.2.2
  · next he =>
    obtain ⟨rfl, rfl⟩ := List.cons.inj he
    exact if_pos hl
  · next he => exact absurd he (List.cons_ne_nil d cs)

theorem next_of_letter {d : Char} {tag : Tag} {selfClosing : Bool} (hl : isLetter d = true)
    (ht : Tag.ofChars? (d :: cs) = some (tag, selfClosing, r)) :
    next '<' (d :: cs) = (.start tag selfClosing, r) := by
  rw [next_letter hl, ht]

theorem next_of_unclosed {d : Char} (hl : isLetter d = true)
    (ht : Tag.ofChars? (d :: cs) = none) : next '<' (d :: cs) = textAt '<' (d :: cs) := by
  rw [next_letter hl, ht]

theorem next_start {tag : Tag} (h : tag.WellFormed) (r : List Char) :
    next '<' (tag.name.toList ++ Tag.restChars tag.attributes r) = (.start tag false, r) := by
  obtain ⟨d, hd, hl⟩ := h.letter
  obtain ⟨ds, hds⟩ := List.head?_eq_some_iff.mp hd
  have ht := Tag.ofChars?_printed h r
  rw [hds, List.cons_append] at ht ⊢
  exact next_of_letter hl ht

theorem trim_of_plain {stops cs : List Char} (h : Plain stops cs) : trim cs = cs := by
  have hs : ∀ {l : List Char}, (∀ x ∈ l, isBlank x = false) → trimStart l = l := by
    intro l hl
    cases l with
    | nil => rfl
    | cons x l => exact trimStart_cons_of_not_blank (hl x List.mem_cons_self) l
  have hb := fun x hx => (h x hx).1
  rw [trim, hs hb, hs (by simpa using hb), List.reverse_reverse]

theorem next_close {tag : Tag} (h : tag.WellFormed) (r : List Char) :
    next '<' ('/' :: tag.name.toList ++ '>' :: r) = (.close tag.name, r) := by
  have hg : '>' ∉ tag.name.toList := by
    intro hm
    exact (h.name '>' hm).2.2 (by simp)
  have hcut : cutAt? ['>'] (tag.name.toList ++ '>' :: r) = some (tag.name.toList, r) := by
    simpa using cutAt?_append (firstAt_singleton_iff.mpr hg) r
  simp [next, closeAt, hcut, trim_of_plain h.name, h.name.lower_eq]

theorem next_comment {s : String} (h : ¬ "-->".toList <:+: s.toList) (r : List Char) :
    next '<' ("!--".toList ++ (s.toList ++ "-->".toList ++ r)) = (.comment s, r) := by
  have hf : FirstAt "-->".toList s.toList :=
    (firstAt_concat_iff (by decide : '>' ∉ ['-', '-'])).mpr h
  change commentAt (s.toList ++ "-->".toList ++ r) = _
  simp only [commentAt, cutAt?_append hf r, String.ofList_toList]

theorem next_declaration {e : List Char} (hg : '>' ∉ e)
    (hb : e.head? = some '!' ∨ e.head? = some '?') (hc : ¬ "!--".toList <+: e) (r : List Char) :
    next '<' (e ++ '>' :: r) = (.declaration (String.ofList ('<' :: e ++ ['>'])), r) := by
  have hat : declarationAt (e ++ '>' :: r) =
      (.declaration (String.ofList ('<' :: e ++ ['>'])), r) := by
    have hcut : cutAt? ['>'] (e ++ '>' :: r) = some (e, r) := by
      simpa using cutAt?_append (firstAt_singleton_iff.mpr hg) r
    rw [declarationAt, hcut]
  have hhead : (e ++ '>' :: r).head? = some '!' ∨ (e ++ '>' :: r).head? = some '?' := by
    cases e with
    | nil => simp at hb
    | cons x e => exact hb
  rw [next.eq_def, if_pos rfl]
  split
  · next r' he =>
    exact absurd (prefix_of_prefix_append (by decide : '>' ∉ "!--".toList) ⟨r', he.symm⟩) hc
  · exact hat
  · exact hat
  · next he => simp [he] at hhead
  · next hbang hquestion _ he =>
    rw [he] at hhead
    rcases hhead with h | h
    · exact (hbang (Option.some.inj h)).elim
    · exact (hquestion (Option.some.inj h)).elim
  · next he => simp at he

theorem next_text (h : '<' ∉ c :: cs) (hr : ∀ x ∈ r.head?, x = '<') :
    next c (cs ++ r) = (.text (String.ofList (c :: cs)), r) := by
  have hc : c ≠ '<' := by
    rintro rfl
    exact h List.mem_cons_self
  have hcs : ∀ x ∈ cs, decide (x ≠ '<') = true := by
    intro x hx
    apply decide_eq_true
    rintro rfl
    exact h (List.mem_cons_of_mem c hx)
  have hr : ∀ x ∈ r.head?, decide (x ≠ '<') = false := by simpa using hr
  rw [next.eq_def, if_neg hc, textAt, takeWhile_append_of_stop hcs hr,
    dropWhile_append_of_stop hcs hr]

end Next

theorem all_start {tag : Tag} (h : tag.WellFormed) (hr : tag.isRaw = false) (r : List Char) :
    all (tag.chars ++ r) = .start tag false :: all r := by
  rw [Tag.chars_append]
  exact all_cons_of_next (next_start h r) (by simp [body, hr])

theorem all_start_of_isRaw {tag : Tag} (h : tag.WellFormed) (hr : tag.isRaw = true)
    {a : List Char} (ha : ¬ '<' :: '/' :: tag.name.toList <:+: a.map Char.toLower)
    (r : List Char) : all (tag.chars ++ (a ++ (tag.closingChars ++ r))) =
      .start tag false :: (if a.isEmpty then [] else [.text (String.ofList a)]) ++
        all (tag.closingChars ++ r) := by
  rw [Tag.chars_append]
  exact all_cons (next_start h _) (by simp [body, hr, rawBody_append h hr ha])

theorem all_close {tag : Tag} (h : tag.WellFormed) (r : List Char) :
    all (tag.closingChars ++ r) = .close tag.name :: all r := by
  have := all_cons_of_next (next_close h r) rfl
  simpa [Tag.closingChars] using this

end Token

namespace Node

/-- What follows a text begins with a bracket. -/
def Bracketed (r : List Char) : Prop := ∀ c ∈ r.head?, c = '<'

theorem bracketed_chars {n : Node} (h : n.WellFormed) (ht : n.isText = false) (r : List Char) :
    Bracketed (n.chars ++ r) := by
  cases n with
  | element t cs =>
    rw [chars]
    split <;> simp [Bracketed, Tag.chars]
  | text s => simp [isText] at ht
  | comment s => simp [Bracketed, chars]
  | declaration s =>
    obtain ⟨e, he, -⟩ := IsDeclaration.exists_body h
    simp [Bracketed, chars, he]

theorem bracketed_charsList {ns : List Node} (h : WellFormedList ns)
    (ht : ¬ ns.head?.any isText = true) {r : List Char} (hr : Bracketed r) :
    Bracketed (charsList ns ++ r) := by
  cases ns with
  | nil => exact hr
  | cons n ns =>
    rw [charsList, List.append_assoc]
    exact bracketed_chars h.1 (by simpa using ht) _

theorem all_element {t : Tag} {cs : List Node} (h : (element t cs).WellFormed)
    (ih : WellFormedList cs → ∀ r, Bracketed r →
      Token.all (charsList cs ++ r) = tokensList cs ++ Token.all r) (r : List Char) :
    Token.all ((element t cs).chars ++ r) = (element t cs).tokens ++ Token.all r := by
  obtain ⟨ht, hcs⟩ := h
  by_cases hv : t.isVoid = true
  · simp [chars, tokens, hv, Token.all_start ht (Tag.isRaw_of_isVoid hv)]
  by_cases hr : t.isRaw = true
  · simp only [hv, hr, if_true, if_false, Bool.false_eq_true] at hcs
    rcases Tag.rawBody_iff.mp hcs with rfl | ⟨s, rfl, hne, hs⟩
    · have := Token.all_start_of_isRaw ht hr (a := []) (by simp) r
      simp_all [chars, tokens, charsList, tokensList, Token.all_close]
    · have := Token.all_start_of_isRaw ht hr hs r
      simp_all [chars, tokens, charsList, tokensList, Token.all_close]
  · simp only [hv, hr, if_false, Bool.false_eq_true] at hcs
    have hb : Bracketed (t.closingChars ++ r) := by simp [Bracketed, Tag.closingChars]
    simp [chars, tokens, hv, Token.all_start ht (by simpa using hr), ih hcs _ hb,
      Token.all_close ht]

/-- The markup of a well formed list is cut into its tokens. -/
theorem all_charsList {ns : List Node} (h : WellFormedList ns) {r : List Char}
    (hr : Bracketed r) : Token.all (charsList ns ++ r) = tokensList ns ++ Token.all r := by
  induction ns using list_induction generalizing r with
  | nil => rfl
  | element t cs ns ihc ihn =>
    rw [charsList, List.append_assoc, all_element h.1 (fun hc r hr => ihc hc hr),
      ihn h.2.2 hr, tokensList, List.append_assoc]
  | leaf n ns hn ih =>
    rw [charsList, tokensList, List.append_assoc, List.append_assoc, ← ih h.2.2 hr]
    cases n with
    | element t cs => simp [isElement] at hn
    | text s =>
      obtain ⟨c, cs, hcs⟩ := List.exists_cons_of_ne_nil (String.toList_eq_nil_iff.not.mpr h.1.1)
      have hb := bracketed_charsList h.2.2 (fun ht => h.2.1 ⟨rfl, ht⟩) hr
      have hn := Token.next_text (hcs ▸ h.1.2) hb
      rw [← hcs, String.ofList_toList] at hn
      rw [chars, hcs]
      exact Token.all_cons_of_next hn rfl
    | comment s =>
      have hn := Token.next_comment h.1 (charsList ns ++ r)
      rw [chars, List.append_assoc, List.append_assoc, ← List.append_assoc s.toList]
      exact Token.all_cons_of_next hn rfl
    | declaration s =>
      obtain ⟨e, he, hg, hb, hc⟩ := IsDeclaration.exists_body h.1
      have hn := Token.next_declaration hg hb hc (charsList ns ++ r)
      rw [← he, String.ofList_toList] at hn
      rw [chars, he, List.cons_append, List.cons_append, List.append_assoc]
      exact Token.all_cons_of_next hn rfl

end Node

namespace Builder

@[simp] theorem append_nil (b : Builder) : b.append [] = b := by
  rcases b with ⟨roots, _ | ⟨e, es⟩⟩ <;> simp [append]

@[simp] theorem append_append (b : Builder) (ns ms : List Node) :
    (b.append ns).append ms = b.append (ns ++ ms) := by
  rcases b with ⟨roots, _ | ⟨e, es⟩⟩ <;> simp [append]

theorem step_close (t : Tag) (cs roots : List Node) (es : List Element) :
    step ⟨roots, ⟨t, cs⟩ :: es⟩ (.close t.name) = append [.element t cs] ⟨roots, es⟩ := by
  simp [step, isOpen, closeThrough]

theorem foldl_step_element {t : Tag} {cs : List Node} (hv : t.isVoid = true → cs = [])
    (ih : ∀ b, (Node.tokensList cs).foldl step b = b.append cs) (b : Builder) :
    (Node.tokens (.element t cs)).foldl step b = b.append [.element t cs] := by
  by_cases h : t.isVoid = true
  · simp [Node.tokens, step, h, hv h]
  · simp only [Node.tokens, h, if_false, Bool.false_eq_true, List.foldl_cons, List.foldl_append,
      List.foldl_nil, List.cons_append]
    have hs : step b (.start t false) = ⟨b.roots, ⟨t, []⟩ :: b.opened⟩ := by simp [step, h]
    rw [hs, ih]
    exact step_close t cs b.roots b.opened

theorem foldl_step_tokensList {ns : List Node} (h : Node.WellFormedList ns) (b : Builder) :
    (Node.tokensList ns).foldl step b = b.append ns := by
  induction ns using Node.list_induction generalizing b with
  | nil => simp [Node.tokensList]
  | element t cs ns ihc ihn =>
    have hcs := h.1.2
    have hv : t.isVoid = true → cs = [] := fun hv => by simpa [hv] using hcs
    have ih : ∀ b, (Node.tokensList cs).foldl step b = b.append cs := by
      intro b
      split at hcs
      · simp [hcs, Node.tokensList]
      · split at hcs
        · rcases Tag.rawBody_iff.mp hcs with rfl | ⟨s, rfl, -, -⟩ <;>
            simp [Node.tokensList, Node.tokens, step]
        · exact ihc hcs b
    rw [Node.tokensList, List.foldl_append, foldl_step_element hv ih, ihn h.2.2, append_append,
      List.singleton_append]
  | leaf n ns hn ih =>
    rw [Node.tokensList, List.foldl_append, ih h.2.2]
    cases n with
    | element t cs => simp [Node.isElement] at hn
    | text s => simp [Node.tokens, step]
    | comment s => simp [Node.tokens, step]
    | declaration s => simp [Node.tokens, step]

end Builder

/-- The markup of a well formed document reads back as the same document. -/
theorem parse_html {ns : List Node} (h : Node.WellFormedList ns) : parse (html ns) = ns := by
  have ht : Token.all (Node.charsList ns) = Node.tokensList ns := by
    have := Node.all_charsList h (r := []) (by simp [Node.Bracketed])
    rwa [List.append_nil, Token.all, List.append_nil] at this
  rw [parse, html, String.toList_ofList, parseChars, ht, ofTokens,
    Builder.foldl_step_tokensList h]
  simp [Builder.append, Builder.finish, Builder.closeAll]

/-- A value with quotes and references, a void element, a comment of dashes and a raw body
with brackets. -/
def assorted : List Node :=
  [.declaration "<!DOCTYPE html>",
    .element ⟨"p", [("title", some "a \"b\" & <c>"), ("hidden", none)]⟩
      [.text "x > y", .element ⟨"br", []⟩ [], .text "z"],
    .comment "--", .element ⟨"script", []⟩ [.text "if (a </ b) \x7b\x7d"]]

theorem parse_html_assorted : Node.WellFormedList assorted ∧ parse (html assorted) = assorted :=
  have h : Node.WellFormedList assorted := by decide
  ⟨h, parse_html h⟩

end Questionnaire.Markup
