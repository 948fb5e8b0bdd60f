import Questionnaire.Proofs.Markup.Settled

/-! # Raw bodies

The body of a script or style element is one text of the document, as it stands in the markup,
unless the beginning of the closing tag occurs in it. This ends the body also in front of a longer
name, which then is no closing tag of the element: the element stays open.
-/

namespace Questionnaire.Markup

open Text
open Token (Lists Makes nonClosing)

theorem Tag.wellFormed_of_raw {name : String} (h : name ∈ Tag.rawNames) :
    (⟨name, []⟩ : Tag).WellFormed := by
  have hnames : ∀ n ∈ Tag.rawNames, (⟨n, []⟩ : Tag).WellFormed := by decide
  exact hnames name h

theorem Tag.isRaw_of_mem {name : String} (h : name ∈ Tag.rawNames) :
    (⟨name, []⟩ : Tag).isRaw = true := List.contains_iff_mem.mpr h

theorem Tag.not_isVoid_of_raw {name : String} (h : name ∈ Tag.rawNames) :
    (⟨name, []⟩ : Tag).isVoid = false := by
  by_contra hv
  simpa [Tag.isRaw_of_mem h] using Tag.isRaw_of_isVoid (t := ⟨name, []⟩) (by simpa using hv)

namespace Token

variable {c : Char} {cs rest : List Char} {t : Token} {name : String}

theorem exists_closeAt (cs : List Char) : ∃ name rest, closeAt cs = (.close name, rest) := by
  rw [closeAt]
  split
  · exact ⟨_, _, rfl⟩
  · exact ⟨_, _, rfl⟩

theorem not_prefix_of_next {s : String} (h : next c cs = (.text s, rest)) :
    ¬ ['<', '/'] <+: s.toList := by
  rintro ⟨r, hr⟩
  obtain ⟨slice, hslice, hsource⟩ := exists_source_next h
  cases hsource
  rename_i hne
  obtain rfl := hr.trans String.toList_ofList
  obtain ⟨rfl, rfl⟩ := List.cons.inj hslice
  obtain ⟨name, rest', hclose⟩ := exists_closeAt (r ++ rest)
  exact Token.noConfusion (Prod.mk.inj (hclose.symm.trans h)).1

theorem not_prefix_of_head? {s : String} (h : (nonClosing (all cs)).head? = some (.text s)) :
    ¬ ['<', '/'] <+: s.toList := by
  fun_induction all cs with
  | case1 => simp [nonClosing] at h
  | case2 c cs t behind hn b rest hb ih =>
    cases t with
    | close name =>
      obtain ⟨rfl, rfl⟩ := Prod.mk.inj hb
      exact ih h
    | text s' =>
      obtain rfl : s' = s := by simpa [nonClosing, isClose] using h
      exact not_prefix_of_next hn
    | start tag selfClosing => simp [nonClosing, isClose] at h
    | comment s' => simp [nonClosing, isClose] at h
    | declaration s' => simp [nonClosing, isClose] at h

theorem eq_of_toLower {d : Char} (hd : d.isLower = false) (h : c.toLower = d) : c = d := by
  by_cases hu : c.isUpper = true
  · have hlower := Char.isLower_toLower_eq_isAlpha c
    simp [h, hd, Char.isAlpha, hu] at hlower
  · rwa [Char.toLower_eq_of_not_isUpper hu] at h

theorem prefix_of_beginsClosing (h : beginsClosing name cs = true) : ['<', '/'] <+: cs := by
  obtain ⟨r, hr⟩ := beginsClosing_iff.mp h
  obtain ⟨c, cs, rfl, hc, hr⟩ := List.map_eq_cons_iff.mp hr.symm
  obtain ⟨d, cs, rfl, hd, -⟩ := List.map_eq_cons_iff.mp hr
  rw [eq_of_toLower rfl hc, eq_of_toLower rfl hd]
  exact ⟨cs, rfl⟩

/-- What begins like the closing tag ends a raw body early. -/
theorem exists_rawBody {body : List Char}
    (h : '<' :: '/' :: name.toList <:+: body.map Char.toLower) (r : List Char) :
    ∃ a b, body = a ++ b ∧ ['<', '/'] <+: b ∧ rawBody name (body ++ r) = (a, b ++ r) := by
  obtain ⟨x', y', hx⟩ := h
  rw [List.append_assoc, eq_comm] at hx
  obtain ⟨x, z, rfl, -, hz⟩ := List.map_eq_append_iff.mp hx
  have hbegins : beginsClosing name (z ++ r) = true := by
    rw [beginsClosing_iff, List.map_append, hz]
    exact ⟨y' ++ r.map Char.toLower, by simp⟩
  have hlen : ['<', '/'].length ≤ z.length := by
    have := congrArg List.length hz
    simp only [List.length_map, List.length_append, List.length_cons] at this
    simp only [List.length_cons, List.length_nil]
    omega
  obtain ⟨a, rest, hcut, hle⟩ := exists_cutBefore? hbegins x
  obtain ⟨happ, hrest⟩ := eq_append_of_cutBefore? hcut
  -- the body is cut at the latest in front of this place
  obtain ⟨y, rfl⟩ : a <+: x := List.prefix_of_prefix_length_le ⟨rest, happ.symm⟩
    (List.prefix_append x (z ++ r)) hle
  obtain rfl : y ++ (z ++ r) = rest := by simpa using happ
  have hpre := prefix_of_beginsClosing hrest
  rw [← List.append_assoc] at hpre
  refine ⟨a, y ++ z, by simp, ?_, ?_⟩
  · exact List.prefix_of_prefix_length_le hpre (List.prefix_append _ r) (by simp at hlen ⊢; omega)
  · rw [rawBody]
    simpa using congrArg (Option.getD · _) hcut

end Token

/-- The markup of a raw element between other markup. -/
def rawMarkup (before name body after : String) : String :=
  before ++ "<" ++ name ++ ">" ++ body ++ "</" ++ name ++ ">" ++ after

def rawChildren (body : String) : List Node := if body = "" then [] else [.text body]

section Raw

variable {name : String}

theorem toList_rawMarkup (before name body after : String) :
    (rawMarkup before name body after).toList =
      before.toList ++ ((⟨name, []⟩ : Tag).chars ++
        (body.toList ++ ((⟨name, []⟩ : Tag).closingChars ++ after.toList))) := by
  simp [rawMarkup, Tag.chars, Tag.closingChars]

theorem rawBody_rawChildren {name body : String}
    (h : ¬ '<' :: '/' :: name.toList <:+: body.toList.map Char.toLower) :
    (⟨name, []⟩ : Tag).RawBody (rawChildren body) := by
  rw [Tag.rawBody_iff, rawChildren]
  split
  · exact .inl rfl
  · next hne => exact .inr ⟨body, rfl, hne, h⟩

theorem wellFormed_rawChildren {body : String} (hname : name ∈ Tag.rawNames)
    (h : ¬ '<' :: '/' :: name.toList <:+: body.toList.map Char.toLower) :
    (Node.element ⟨name, []⟩ (rawChildren body)).WellFormed := by
  refine ⟨Tag.wellFormed_of_raw hname, ?_⟩
  rw [if_neg (by simp [Tag.not_isVoid_of_raw hname]), if_pos (Tag.isRaw_of_mem hname)]
  exact rawBody_rawChildren h

theorem charsList_rawChildren (body : String) :
    Node.charsList (rawChildren body) = body.toList := by
  rw [rawChildren]
  split
  · next h => rw [h]; rfl
  · simp [Node.charsList, Node.chars]

variable {before : String} (hname : name ∈ Tag.rawNames)
  (hbefore : Token.Complete before.toList) (body after : String)
include hname hbefore

theorem all_rawMarkup {a rest : List Char}
    (h : Token.rawBody name (body.toList ++ ((⟨name, []⟩ : Tag).closingChars ++ after.toList)) =
      (a, rest)) :
    Token.all (rawMarkup before name body after).toList =
      Token.all before.toList ++ .start ⟨name, []⟩ false ::
        (Token.ofBody a ++ Token.all rest) := by
  have hbody : (Token.start ⟨name, []⟩ false).body
      (body.toList ++ ((⟨name, []⟩ : Tag).closingChars ++ after.toList)) = (a, rest) := by
    simp [Token.body, Tag.isRaw_of_mem hname, h]
  have hstart := Token.all_cons (Token.next_start (Tag.wellFormed_of_raw hname) _) hbody
  rw [toList_rawMarkup, hbefore _ (by simp [Node.Bracketed, Tag.chars]), Tag.chars_append, hstart]
  rfl

/-- The element has its place behind the nodes of the markup in front of it, and the nodes made by
its body and the markup behind it follow. -/
theorem exists_raw_element {a rest : List Char}
    (h : Token.rawBody name (body.toList ++ ((⟨name, []⟩ : Tag).closingChars ++ after.toList)) =
      (a, rest)) :
    ∃ front children behind,
      Node.inOrderList (parse (rawMarkup before name body after)) =
        front ++ .element ⟨name, []⟩ children :: behind ∧
      front.length = (Node.inOrderList (parse before)).length ∧
      List.Forall₂ Makes (nonClosing
        (Token.ofBody a ++ Token.all rest)) behind := by
  have hlists := (Builder.grows_after (Token.all (rawMarkup before name body after).toList)).finish
  rw [all_rawMarkup hname hbefore body after h] at hlists
  obtain ⟨front, n, behind, hnodes, hlen, hmakes, hbehind⟩ := hlists.exists_of_start
  have hparse := (Builder.grows_after (Token.all before.toList)).finish
  cases hmakes with
  | @element _ children _ =>
    refine ⟨front, children, behind, ?_, hlen.trans hparse.length_eq, hbehind⟩
    rw [← hnodes, ← all_rawMarkup hname hbefore body after h]
    rfl

theorem getElem?_parse_rawMarkup
    (h : ¬ '<' :: '/' :: name.toList <:+: body.toList.map Char.toLower) :
    (Node.inOrderList (parse (rawMarkup before name body after)))[
      (Node.inOrderList (parse before)).length]? =
        some (.element ⟨name, []⟩ (rawChildren body)) := by
  have hwell := wellFormed_rawChildren hname h
  have hchars : (rawMarkup before name body after).toList = before.toList ++
      ((Node.element ⟨name, []⟩ (rawChildren body)).chars ++ after.toList) := by
    rw [toList_rawMarkup, Node.chars, if_neg (by simp [Tag.not_isVoid_of_raw hname]),
      charsList_rawChildren]
    simp
  rw [parse, hchars]
  exact getElem?_parseChars_append hbefore hwell _

end Raw

section Cut

variable {a b rest : List Char} {body : String} {behind : List Node}

theorem not_makes_body (hbody : body.toList = a ++ b) (hb : ['<', '/'] <+: b) :
    ¬ List.Forall₂ Makes (nonClosing
      (Token.ofBody a ++ Token.all rest))
        (.text body :: behind) := by
  intro hmakes
  obtain ⟨t, ts, ht, -, hts⟩ := List.forall₂_cons_right_iff.mp hmakes
  obtain rfl : t = .text body := by
    cases ht
    rfl
  cases a with
  | nil =>
    have hhead : (nonClosing (Token.all rest)).head? = some (.text body) :=
      congrArg List.head? hts
    exact Token.not_prefix_of_head? hhead (hbody ▸ hb)
  | cons c a =>
    have hfirst : Token.text (String.ofList (c :: a)) :: nonClosing (Token.all rest) =
      .text body :: ts := hts
    obtain rfl := Token.text.inj (List.cons.inj hfirst).1
    rw [String.toList_ofList] at hbody
    obtain rfl : b = [] := by simpa using hbody
    simp at hb

end Cut

/-- A raw element has its body as it stands if and only if nothing in the body begins like its
closing tag, in either case of letters; what the name goes on with does not matter. -/
theorem parse_keeps_raw_body_iff {name before : String} (hname : name ∈ Tag.rawNames)
    (hbefore : Token.Complete before.toList) (body after : String) :
    ∃ children, (Node.inOrderList (parse (rawMarkup before name body after)))[
        (Node.inOrderList (parse before)).length]? = some (.element ⟨name, []⟩ children) ∧
      (children = rawChildren body ∧ html children = body ↔
        ¬ '<' :: '/' :: name.toList <:+: body.toList.map Char.toLower) := by
  rcases hcut : Token.rawBody name (body.toList ++
    ((⟨name, []⟩ : Tag).closingChars ++ after.toList)) with ⟨a, rest⟩
  obtain ⟨front, children, behind, hnodes, hlen, hbehind⟩ :=
    exists_raw_element hname hbefore body after hcut
  have hnode : (Node.inOrderList (parse (rawMarkup before name body after)))[
      (Node.inOrderList (parse before)).length]? = some (.element ⟨name, []⟩ children) := by
    rw [hnodes, ← hlen, List.getElem?_append_right (Nat.le_refl _), Nat.sub_self]
    rfl
  refine ⟨children, hnode, ?_, fun hbody => ?_⟩
  · rintro ⟨rfl, -⟩ hinfix
    obtain ⟨x, y, hbody, hy, hcut'⟩ := Token.exists_rawBody hinfix
      ((⟨name, []⟩ : Tag).closingChars ++ after.toList)
    obtain ⟨rfl, rfl⟩ := Prod.mk.inj (hcut'.symm.trans hcut)
    have hne : body ≠ "" := by
      rintro rfl
      simp at hinfix
    obtain ⟨r, rfl⟩ := Node.exists_of_inOrderList hnodes
    rw [rawChildren, if_neg hne] at hbehind
    exact not_makes_body hbody hy hbehind
  · have hkept := getElem?_parse_rawMarkup hname hbefore body after hbody
    obtain ⟨-, rfl⟩ := Node.element.inj (Option.some.inj (hnode.symm.trans hkept))
    exact ⟨rfl, by rw [html, charsList_rawChildren, String.ofList_toList]⟩

/-- The closing tag of a name occurs in the text: the name ends behind it. -/
def HasClosing (name : String) (cs : List Char) : Prop :=
  ∃ t ∈ cs.tails, Token.beginsClosing name t = true ∧
    (t.drop (name.toList.length + 2)).head?.any Tag.endsName = true

instance (name : String) (cs : List Char) : Decidable (HasClosing name cs) :=
  inferInstanceAs (Decidable (∃ t ∈ cs.tails, _))

/-- A longer name ends the body as well, and its closing tag is left out of the document. -/
theorem parse_cuts_raw_body :
    ¬ HasClosing "script" "a</scripts>b".toList ∧
    parse (rawMarkup "" "script" "a</scripts>b" "c") =
      [.element ⟨"script", []⟩ [.text "a", .text "b"], .text "c"] := by
  decide +kernel

/-- A body full of markup, inside an element that is still open and behind a whole document. -/
theorem parse_keeps_raw_body_styled :
    let document : List Node := [.comment "a", .element ⟨"p", []⟩ [.text "b"]]
    let style : Node := .element ⟨"style", []⟩ [.text "<!-- <b> </b>"]
    "style" ∈ Tag.rawNames ∧
    (Token.Complete "<div>".toList ∧
      (Node.inOrderList (parse (rawMarkup "<div>" "style" "<!-- <b> </b>" "</div>")))[1]? =
        some style) ∧
    Token.Complete (html document).toList ∧
      (Node.inOrderList (parse (rawMarkup (html document) "style" "<!-- <b> </b>" "</p>")))[3]? =
        some style := by
  intro document style
  have hdiv : Token.Complete "<div>".toList :=
    Token.complete_chars (by decide : (⟨"div", []⟩ : Tag).WellFormed) (by decide)
  have hdocument : Token.Complete (html document).toList := by
    rw [html, String.toList_ofList]
    exact Token.complete_charsList (by decide)
  have hstyle : "style" ∈ Tag.rawNames := by decide
  have hkept {before : String} (hbefore : Token.Complete before.toList) (after : String) {n : Nat}
      (hn : (Node.inOrderList (parse before)).length = n) :
      (Node.inOrderList (parse (rawMarkup before "style" "<!-- <b> </b>" after)))[n]? =
        some style := by
    obtain ⟨children, hnode, hiff⟩ := parse_keeps_raw_body_iff hstyle hbefore "<!-- <b> </b>" after
    obtain ⟨rfl, -⟩ := hiff.mpr (by decide)
    rwa [hn] at hnode
  exact ⟨hstyle, ⟨hdiv, hkept hdiv "</div>" (by decide +kernel)⟩, hdocument,
    hkept hdocument "</p>" (by decide +kernel)⟩

end Questionnaire.Markup
