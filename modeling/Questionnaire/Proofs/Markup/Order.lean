import Mathlib.Data.List.Induction
import Questionnaire.Proofs.Markup.RoundTrip
import Questionnaire.Proofs.Markup.Source

/-! # Document order

The nodes of a document in their order, each element before its children, are the tokens of its
markup that are not closing tags. While the markup is read, every open element has got what has
been read since its start tag, and the innermost one goes on getting what is read.
-/

namespace Questionnaire.Markup

namespace Node

mutual

/-- The nodes of a tree, each element before its children. -/
def inOrder : Node → List Node
  | .element t cs => .element t cs :: inOrderList cs
  | n => [n]

def inOrderList : List Node → List Node
  | [] => []
  | n :: ns => n.inOrder ++ inOrderList ns

end

@[simp] theorem inOrderList_nil : inOrderList [] = [] := rfl

@[simp] theorem inOrderList_element (t : Tag) (cs ns : List Node) :
    inOrderList (.element t cs :: ns) = .element t cs :: (inOrderList cs ++ inOrderList ns) := rfl

@[simp] theorem inOrderList_append (ms ns : List Node) :
    inOrderList (ms ++ ns) = inOrderList ms ++ inOrderList ns := by
  induction ms with
  | nil => rfl
  | cons m ms ih => rw [List.cons_append, inOrderList, inOrderList, ih, List.append_assoc]

theorem exists_of_inOrderList {t : Tag} {cs ns a b : List Node}
    (h : inOrderList ns = a ++ .element t cs :: b) : ∃ r, b = inOrderList cs ++ r := by
  induction ns using list_induction generalizing a b with
  | nil => simp at h
  | element u ds ns ihd ihn =>
    rw [inOrderList_element] at h
    cases a with
    | nil =>
      obtain ⟨he, rfl⟩ := List.cons.inj h
      obtain ⟨-, rfl⟩ := Node.element.inj he
      exact ⟨_, rfl⟩
    | cons x a =>
      obtain ⟨-, h⟩ := List.cons.inj h
      rcases List.append_eq_append_iff.mp h with ⟨d, rfl, hd⟩ | ⟨d, hd, hb⟩
      · exact ihn hd
      · cases d with
        | nil => exact ihn (a := []) hb.symm
        | cons y d =>
          obtain ⟨rfl, rfl⟩ := List.cons.inj hb
          obtain ⟨r, rfl⟩ := ihd hd
          exact ⟨r ++ inOrderList ns, List.append_assoc ..⟩
  | leaf n ns hn ih =>
    have hleaf : inOrderList (n :: ns) = n :: inOrderList ns := by
      cases n <;> first | rfl | simp [isElement] at hn
    rw [hleaf] at h
    cases a with
    | nil =>
      obtain ⟨rfl, -⟩ := List.cons.inj h
      simp [isElement] at hn
    | cons x a => exact ih (List.cons.inj h).2

end Node

namespace Token

def isClose : Token → Bool
  | close _ => true
  | _ => false

def nonClosing (ts : List Token) : List Token := ts.filter (!·.isClose)

@[simp] theorem nonClosing_append (ts us : List Token) :
    nonClosing (ts ++ us) = nonClosing ts ++ nonClosing us := List.filter_append ..

@[simp] theorem nonClosing_start (tag : Tag) (selfClosing : Bool) (ts : List Token) :
    nonClosing (.start tag selfClosing :: ts) = .start tag selfClosing :: nonClosing ts := rfl

/-- A token and the node that it makes. Void elements and those whose tag closes itself have no
children. -/
inductive Makes : Token → Node → Prop where
  | element {tag : Tag} {children : List Node} : (tag.isVoid = true → children = []) →
      Makes (.start tag false) (.element tag children)
  | selfClosed {tag : Tag} : Makes (.start tag true) (.element tag [])
  | text {s : String} : Makes (.text s) (.text s)
  | comment {s : String} : Makes (.comment s) (.comment s)
  | declaration {s : String} : Makes (.declaration s) (.declaration s)

/-- The tokens that are not closing tags make the nodes of a list in their order, one each. -/
def Lists (ts : List Token) (ns : List Node) : Prop :=
  List.Forall₂ Makes (nonClosing ts) (Node.inOrderList ns)

theorem lists_nil : Lists [] [] := .nil

theorem lists_close (name : String) : Lists [.close name] [] := .nil

theorem Lists.append {ts us : List Token} {ms ns : List Node} (h : Lists ts ms)
    (h' : Lists us ns) : Lists (ts ++ us) (ms ++ ns) := by
  rw [Lists, nonClosing_append, Node.inOrderList_append]
  exact List.rel_append h h'

theorem makes_of_not_void {tag : Tag} (hv : tag.isVoid = false) (children : List Node) :
    Makes (.start tag false) (.element tag children) := .element (by simp [hv])

theorem Lists.element {ts : List Token} {tag : Tag} {children : List Node}
    (hv : tag.isVoid = false) (h : Lists ts children) :
    Lists (.start tag false :: ts) [.element tag children] := by
  simpa [Lists] using ⟨makes_of_not_void hv children, h⟩

/-- The tokens around a start tag make the nodes before and behind its element. -/
theorem Lists.exists_of_start {ts us : List Token} {tag : Tag} {selfClosing : Bool} {ns : List Node}
    (h : Lists (ts ++ .start tag selfClosing :: us) ns) :
    ∃ before n behind, Node.inOrderList ns = before ++ n :: behind ∧
      before.length = (nonClosing ts).length ∧ Makes (.start tag selfClosing) n ∧
      List.Forall₂ Makes (nonClosing us) behind := by
  rw [Lists, nonClosing_append, nonClosing_start] at h
  have hlen := h.length_eq
  have hdrop := List.forall₂_drop (nonClosing ts).length h
  rw [List.drop_left] at hdrop
  obtain ⟨n, behind, hn, hbehind, hns⟩ := List.forall₂_cons_left_iff.mp hdrop
  refine ⟨(Node.inOrderList ns).take (nonClosing ts).length, n, behind, ?_, ?_, hn, hbehind⟩
  · rw [← hns, List.take_append_drop]
  · rw [List.length_append] at hlen
    rw [List.length_take]
    omega

end Token

open Token (Lists Makes nonClosing)

namespace Builder

def after (ts : List Token) : Builder := ts.foldl step {}

theorem after_concat (ts : List Token) (t : Token) : after (ts ++ [t]) = (after ts).step t := by
  rw [after, List.foldl_append]
  rfl

section Shut

variable {P : Builder → Prop} {roots ns : List Node} {es : List Element} {b : Builder}
  (shut : ∀ {roots ns : List Node} {e : Element} {es : List Element},
    P (append ns ⟨roots, e :: es⟩) → P (append [.element e.tag (e.children ++ ns)] ⟨roots, es⟩))
include shut

/-- What holds on when the innermost element is ended holds on when a closing tag ends several. -/
theorem closeThrough_of_shut (name : String) (h : P (append ns ⟨roots, es⟩)) :
    P (closeThrough name roots ns es) := by
  induction es generalizing ns with
  | nil => exact h
  | cons e es ih =>
    rw [closeThrough]
    split
    · exact shut h
    · exact ih (shut h)

theorem closeAll_of_shut (h : P (append ns ⟨roots, es⟩)) : P ⟨closeAll roots ns es, []⟩ := by
  induction es generalizing ns with
  | nil => exact h
  | cons e es ih => exact ih (shut h)

theorem finish_of_shut (h : P b) : P ⟨b.finish, []⟩ :=
  closeAll_of_shut shut (by rwa [append_nil])

end Shut

/-- Tokens and the elements, innermost first, that they leave open beside the finished nodes: each
has got what stands behind its start tag, and in front of this tag the elements around it had been
left open as they are. -/
def Grown (roots : List Node) : List Element → List Token → Prop
  | [], ts => Lists ts roots
  | e :: es, ts => ∃ us vs, ts = us ++ .start e.tag false :: vs ∧ e.tag.isVoid = false ∧
      after us = ⟨roots, es⟩ ∧ Grown roots es us ∧ Lists vs e.children

def Grows (b : Builder) (ts : List Token) : Prop := Grown b.roots b.opened ts

variable {roots ns : List Node} {e : Element} {es : List Element} {b : Builder} {ts us : List Token}

theorem Grows.append (h : b.Grows ts) (hn : Lists us ns) : (b.append ns).Grows (ts ++ us) := by
  obtain ⟨roots, _ | ⟨e, es⟩⟩ := b
  · exact Lists.append h hn
  · obtain ⟨ts, vs, rfl, hv, hafter, hes, hvs⟩ := h
    exact ⟨ts, vs ++ us, by simp, hv, hafter, hes, hvs.append hn⟩

theorem Grows.shut (h : (Builder.append ns ⟨roots, e :: es⟩).Grows ts) :
    (Builder.append [Node.element e.tag (e.children ++ ns)] ⟨roots, es⟩).Grows ts := by
  obtain ⟨us, vs, rfl, hv, -, hes, hvs⟩ := h
  exact Grows.append (b := ⟨roots, es⟩) hes (hvs.element hv)

theorem Grows.finish (h : b.Grows ts) : Lists ts b.finish :=
  finish_of_shut (P := (Grows · ts)) Grows.shut h

theorem Grows.step (h : (after ts).Grows ts) (t : Token) :
    ((after ts).step t).Grows (ts ++ [t]) := by
  cases t with
  | start tag selfClosing =>
    rw [Builder.step]
    split
    · next hleaf =>
      refine h.append ?_
      cases selfClosing with
      | true => exact .cons .selfClosed .nil
      | false => exact .cons (.element fun _ => rfl) .nil
    · next hleaf =>
      obtain ⟨rfl, hv⟩ : selfClosing = false ∧ tag.isVoid = false := by simpa using hleaf
      -- the state in front of the tag is the one that the new element remembers
      exact ⟨ts, [], rfl, hv, rfl, h, Token.lists_nil⟩
  | close name =>
    have hstay {b : Builder} (hb : b.Grows ts) : b.Grows (ts ++ [.close name]) := by
      simpa using hb.append (Token.lists_close name)
    rw [Builder.step]
    split
    · exact hstay (closeThrough_of_shut (P := (Grows · ts)) Grows.shut name (by rwa [append_nil]))
    · exact hstay h
  | text s => exact h.append (.cons .text .nil)
  | comment s => exact h.append (.cons .comment .nil)
  | declaration s => exact h.append (.cons .declaration .nil)

theorem grows_after (ts : List Token) : (after ts).Grows ts := by
  induction ts using List.reverseRecOn with
  | nil => exact Token.lists_nil
  | append_singleton ts t ih =>
    rw [after_concat]
    exact ih.step t

/-- Elements, innermost first, as one node with the given nodes at the end of the innermost. -/
def nest (es : List Element) (ns : List Node) : List Node :=
  es.foldl (fun ns e => [.element e.tag (e.children ++ ns)]) ns

/-- What a closing tag ends: nothing where no element of its name is open, else the innermost
one of that name with all that is open inside it. -/
inductive Ends (name : String) : Builder → Builder → Prop where
  | stray {b : Builder} : (∀ e ∈ b.opened, e.tag.name ≠ name) → Ends name b b
  | innermost {roots : List Node} {inner outer : List Element} {e : Element} :
      (∀ d ∈ inner, d.tag.name ≠ name) → e.tag.name = name →
      Ends name ⟨roots, inner ++ e :: outer⟩ (append (nest (inner ++ [e]) []) ⟨roots, outer⟩)

theorem closeThrough_eq {name : String} {inner outer : List Element}
    (hinner : ∀ d ∈ inner, d.tag.name ≠ name) (he : e.tag.name = name) :
    closeThrough name roots ns (inner ++ e :: outer) =
      append (nest (inner ++ [e]) ns) ⟨roots, outer⟩ := by
  induction inner generalizing ns with
  | nil => exact if_pos he
  | cons d inner ih =>
    rw [List.cons_append, closeThrough, if_neg (hinner d List.mem_cons_self)]
    exact ih fun x hx => hinner x (List.mem_cons_of_mem d hx)

theorem ends_step (name : String) (b : Builder) : Ends name b (b.step (.close name)) := by
  rw [step]
  split
  · next hopen =>
    obtain ⟨e, hfound⟩ := Option.isSome_iff_exists.mp (List.find?_isSome.mpr
      (List.any_eq_true.mp hopen))
    obtain ⟨he, inner, outer, hopened, hinner⟩ := List.find?_eq_some_iff_append.mp hfound
    obtain ⟨roots, opened⟩ := b
    obtain rfl : opened = inner ++ e :: outer := hopened
    have hinner : ∀ d ∈ inner, d.tag.name ≠ name := by simpa using hinner
    rw [closeThrough_eq hinner (by simpa using he)]
    exact .innermost hinner (by simpa using he)
  · next hopen => exact .stray (by simpa [isOpen] using hopen)

theorem finish_append (ns roots : List Node) (es : List Element) :
    finish (append ns ⟨roots, es⟩) = closeAll roots ns es := by
  cases es <;> simp [append, finish, closeAll]

theorem closeAll_append (ns roots : List Node) (inner outer : List Element) :
    closeAll roots ns (inner ++ outer) = closeAll roots (nest inner ns) outer := by
  induction inner generalizing ns with
  | nil => rfl
  | cons e inner ih => exact ih _

theorem Ends.finish_eq {name : String} {b' : Builder} (h : Ends name b b') :
    b'.finish = b.finish := by
  cases h with
  | stray _ => rfl
  | @innermost roots inner outer e _ _ =>
    rw [finish_append, ← closeAll_append, List.append_assoc]
    rfl

/-- Ending the open elements puts what is read next at the end of the document. -/
theorem Grown.exists_closeAll (h : Grown roots es ts) (ns : List Node) :
    ∃ before, Node.inOrderList (closeAll roots ns es) = before ++ Node.inOrderList ns ∧
      List.Forall₂ Makes (nonClosing ts) before := by
  induction es generalizing ns ts with
  | nil => exact ⟨Node.inOrderList roots, Node.inOrderList_append roots ns, h⟩
  | cons e es ih =>
    obtain ⟨us, vs, rfl, hv, -, hes, hvs⟩ := h
    -- `e` is ended first, and is what comes last in the elements around it
    obtain ⟨before, hbefore, hus⟩ := ih hes [.element e.tag (e.children ++ ns)]
    refine ⟨before ++ .element e.tag (e.children ++ ns) :: Node.inOrderList e.children, ?_, ?_⟩
    · rw [closeAll, hbefore]
      simp
    · rw [Token.nonClosing_append, Token.nonClosing_start]
      exact List.rel_append hus (.cons (Token.makes_of_not_void hv _) hvs)

theorem Grows.exists_of_opened {inner outer : List Element}
    (h : (Builder.append ns ⟨roots, inner ++ e :: outer⟩).Grows ts) :
    ∃ us vs before children, ts = us ++ .start e.tag false :: vs ∧ after us = ⟨roots, outer⟩ ∧
      Node.inOrderList (Builder.closeAll roots ns (inner ++ e :: outer)) =
        before ++ .element e.tag children :: Node.inOrderList children ∧
      List.Forall₂ Makes (nonClosing us) before ∧ Lists vs children := by
  induction inner generalizing ns with
  | nil =>
    obtain ⟨us, vs, rfl, -, hafter, hus, hvs⟩ := h
    obtain ⟨before, hbefore, hus⟩ := hus.exists_closeAll [.element e.tag (e.children ++ ns)]
    refine ⟨us, vs, before, e.children ++ ns, rfl, hafter, ?_, hus, hvs⟩
    exact hbefore.trans (by simp)
  | cons d inner ih => exact ih h.shut

end Builder

open Builder (after)

/-- Nothing is lost, said twice or put in another place: the parts of a markup that its tokens are
read from make up the markup, and the nodes of its document are the tokens that are not closing
tags, one each, in their order. A closing tag ends the innermost open element of its name with all
that is open inside it, and nothing where there is none; what is still open at the end contains all
that stands behind its start tag. -/
theorem parse_keeps_tokens (markup : String) :
    (∃ slices, List.Forall₂ Token.Source (Token.all markup.toList) slices ∧
      slices.flatten = markup.toList) ∧
    Lists (Token.all markup.toList) (parse markup) ∧
    (∀ us name, Builder.Ends name (after us) (after (us ++ [.close name])) ∧
      (after (us ++ [.close name])).finish = (after us).finish) ∧
    ∀ roots inner e outer, after (Token.all markup.toList) = ⟨roots, inner ++ e :: outer⟩ →
      ∃ us vs before children, Token.all markup.toList = us ++ .start e.tag false :: vs ∧
        after us = ⟨roots, outer⟩ ∧
        Node.inOrderList (parse markup) =
          before ++ .element e.tag children :: Node.inOrderList children ∧
        List.Forall₂ Makes (nonClosing us) before ∧ Lists vs children := by
  have hgrows := Builder.grows_after (Token.all markup.toList)
  refine ⟨Token.exists_sources _, hgrows.finish, fun us name => ?_, ?_⟩
  · have hends := Builder.ends_step name (after us)
    rw [Builder.after_concat]
    exact ⟨hends, hends.finish_eq⟩
  · intro roots inner e outer hstate
    have hparse : parse markup = Builder.closeAll roots [] (inner ++ e :: outer) :=
      congrArg Builder.finish hstate
    rw [hstate, ← Builder.append_nil ⟨roots, inner ++ e :: outer⟩] at hgrows
    rw [hparse]
    exact hgrows.exists_of_opened

end Questionnaire.Markup
