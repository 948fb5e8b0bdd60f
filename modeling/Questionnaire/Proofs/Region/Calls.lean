import Questionnaire.Region
import Mathlib.Data.List.Chain

/-! # Calls of a region

Attaching and detaching are the calls that change what a region shows. They
alternate if they take turns and the first of them attaches. A region then never
holds the nodes of two calls.
-/

namespace Questionnaire

namespace RegionCall

variable {ρ : Type} [DisplayRegion ρ]

def apply (r : ρ) : RegionCall → ρ
  | attach nodes => (DisplayRegion.attach nodes r).value
  | detach => DisplayRegion.detach r
  | loadingFinished => DisplayRegion.loadingFinished r
  | loadingFailed error => DisplayRegion.loadingFailed error r

def replay (calls : List RegionCall) (r : ρ) : ρ := calls.foldl apply r

@[simp] theorem replay_nil (r : ρ) : replay [] r = r := rfl

@[simp] theorem replay_cons (c : RegionCall) (cs : List RegionCall) (r : ρ) :
    replay (c :: cs) r = replay cs (c.apply r) := rfl

@[simp] theorem replay_append (cs ds : List RegionCall) (r : ρ) :
    replay (cs ++ ds) r = replay ds (replay cs r) := List.foldl_append

end RegionCall

namespace Recorder

variable (r : Recorder)

@[simp] theorem calls_attach (nodes : List Markup.Node) :
    (DisplayRegion.attach nodes r).value.calls = r.calls ++ [.attach nodes] := rfl

@[simp] theorem calls_detach : (DisplayRegion.detach r).calls = r.calls ++ [.detach] := rfl

@[simp] theorem calls_loadingFinished :
    (DisplayRegion.loadingFinished r).calls = r.calls ++ [.loadingFinished] := rfl

@[simp] theorem calls_loadingFailed (error : FormError) :
    (DisplayRegion.loadingFailed error r).calls = r.calls ++ [.loadingFailed error] := rfl

end Recorder

namespace RegionCall

def shows? : RegionCall → Option Bool
  | attach _ => some true
  | detach => some false
  | _ => none

def moves (calls : List RegionCall) : List Bool := calls.filterMap shows?

/-- Attaching and detaching take turns, and the first of them attaches. -/
def Alternating (calls : List RegionCall) : Prop := (false :: moves calls).IsChain (· ≠ ·)

def hold (held : List (List Markup.Node)) : RegionCall → List (List Markup.Node)
  | attach nodes => held ++ [nodes]
  | detach => held.dropLast
  | _ => held

/-- The lists of nodes that a region has, when detaching takes away the last one. -/
def held (calls : List RegionCall) : List (List Markup.Node) := calls.foldl hold []

/-- Moves that take turns, from what was shown before them to what is shown after them. -/
inductive Turns : Bool → List Bool → Bool → Prop where
  | nil (s : Bool) : Turns s [] s
  | cons {s m t : Bool} {ms : List Bool} : s ≠ m → Turns m ms t → Turns s (m :: ms) t

theorem Turns.append {s t u : Bool} {ms ns : List Bool} (h : Turns s ms t) (h' : Turns t ns u) :
    Turns s (ms ++ ns) u := by
  induction h with
  | nil s => exact h'
  | cons hm _ ih => exact .cons hm (ih h')

theorem Turns.of_append {s u : Bool} {ms ns : List Bool} (h : Turns s (ms ++ ns) u) :
    ∃ t, Turns s ms t ∧ Turns t ns u := by
  induction ms generalizing s with
  | nil => exact ⟨s, .nil s, h⟩
  | cons m ms ih =>
    cases h with
    | cons hm h =>
      obtain ⟨t, ht, hu⟩ := ih h
      exact ⟨t, .cons hm ht, hu⟩

theorem Turns.unique {s t u : Bool} {ms : List Bool} (h : Turns s ms t) (h' : Turns s ms u) :
    t = u := by
  induction h with
  | nil s => cases h'; rfl
  | cons _ _ ih => cases h' with | cons _ h' => exact ih h'

theorem exists_turns_iff {s : Bool} {ms : List Bool} :
    (∃ t, Turns s ms t) ↔ (s :: ms).IsChain (· ≠ ·) := by
  induction ms generalizing s with
  | nil => exact iff_of_true ⟨s, .nil s⟩ (.singleton s)
  | cons m ms ih =>
    rw [List.isChain_cons_cons, ← ih]
    constructor
    · rintro ⟨t, h⟩
      cases h with | cons hm h => exact ⟨hm, t, h⟩
    · rintro ⟨hm, t, h⟩
      exact ⟨t, .cons hm h⟩

theorem alternating_iff {calls : List RegionCall} :
    Alternating calls ↔ ∃ t, Turns false (moves calls) t := exists_turns_iff.symm

@[simp] theorem moves_nil : moves [] = [] := rfl

@[simp] theorem moves_append (cs ds : List RegionCall) : moves (cs ++ ds) = moves cs ++ moves ds :=
  List.filterMap_append

theorem moves_cons (c : RegionCall) (cs : List RegionCall) :
    moves (c :: cs) = c.shows?.toList ++ moves cs := by
  cases c <;> rfl

theorem length_foldl_hold {s t : Bool} {calls : List RegionCall} {held : List (List Markup.Node)}
    (h : Turns s (moves calls) t) (hs : held.length = s.toNat) :
    (calls.foldl hold held).length = t.toNat := by
  induction calls generalizing s held with
  | nil =>
    cases h
    exact hs
  | cons c cs ih =>
    rw [moves_cons] at h
    obtain ⟨u, hc, h⟩ := h.of_append
    refine ih h ?_
    cases c with
    | attach nodes =>
      obtain _ | ⟨hm, ⟨⟩⟩ := hc
      simp_all [hold]
    | detach =>
      obtain _ | ⟨hm, ⟨⟩⟩ := hc
      simp_all [hold]
    | _ => cases hc; exact hs

/-- A region never has the nodes of two calls while the calls alternate. -/
theorem length_held_le {calls pre : List RegionCall} (h : Alternating calls) (hp : pre <+: calls) :
    (held pre).length ≤ 1 := by
  obtain ⟨t, h⟩ := alternating_iff.mp h
  obtain ⟨post, rfl⟩ := hp
  rw [moves_append] at h
  obtain ⟨u, hu, _⟩ := h.of_append
  rw [held, length_foldl_hold hu rfl]
  exact u.toNat_le

end RegionCall

end Questionnaire
