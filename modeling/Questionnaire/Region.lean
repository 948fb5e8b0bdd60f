import Questionnaire.Config
import Questionnaire.Error
import Questionnaire.Event
import Questionnaire.Markup.Lookup
import Questionnaire.Markup.Parser

/-! # Display regions

A form shows its questions in a region and tells it how the loading went. A page
region is an element of a page; the nodes it has been given are told from the
other content by their places.
-/

namespace Questionnaire

open Markup (Node)

class DisplayRegion (ρ : Type) where
  attach : List Node → ρ → Logged ρ
  /-- Removes the nodes of the last `attach`. -/
  detach : ρ → ρ
  /-- The form has started. -/
  loadingFinished : ρ → ρ := id
  /-- The resources could not be loaded. -/
  loadingFailed : FormError → ρ → ρ := fun _ => id

structure PageRegion where
  page : List Node
  regionId : String
  loadingId : String
  /-- The places of the attached nodes: the first, and the one behind the last. -/
  range : Option (Nat × Nat) := none
  deriving DecidableEq

namespace PageRegion

def ofPage (page : List Node) (config : Config) : PageRegion where
  page := page
  regionId := config.displayRegion
  loadingId := config.loadingIndicator

def ofMarkup (markup : String) (config : Config) : PageRegion :=
  ofPage (Markup.parse markup) config

/-- A page with a loading indicator and an empty region. -/
def blank (config : Config) : PageRegion :=
  ofMarkup ("<div id=\"" ++ config.loadingIndicator ++ "\">Loading...</div><div id=\"" ++
    config.displayRegion ++ "\"></div>") config

def html (r : PageRegion) : String := Markup.html r.page

def element? (r : PageRegion) : Option Markup.Element := Markup.elementById? r.regionId r.page

/-- The nodes of the region that the form has put there. -/
def attached (r : PageRegion) : List Node :=
  match r.range, r.element? with
  | some (start, stop), some e =>
    if start ≤ stop ∧ stop ≤ e.children.length then (e.children.take stop).drop start else []
  | _, _ => []

/-- The page with its region changed, as it was if it has none. -/
def updateElement (f : Markup.Element → Markup.Element) (id : String) (r : PageRegion) :
    PageRegion :=
  { r with page := (Markup.updateById? id f r.page).getD r.page }

def attach (nodes : List Node) (r : PageRegion) : Logged PageRegion :=
  match r.element? with
  | none => do
    Logged.report (.regionMissing r.regionId)
    return r
  | some e =>
    let size := e.children.length
    let start := match r.range with
      | some (start, _) => min start size
      | none => size
    let put (e : Markup.Element) : Markup.Element := { e with children := e.children ++ nodes }
    return { r.updateElement put r.regionId with range := some (start, size + nodes.length) }

def detach (r : PageRegion) : PageRegion :=
  match r.range with
  | none => r
  | some (start, stop) =>
    let cut (e : Markup.Element) : Markup.Element :=
      let stop := min stop e.children.length
      { e with children := e.children.take (min start stop) ++ e.children.drop stop }
    { r.updateElement cut r.regionId with range := none }

def loadingFinished (r : PageRegion) : PageRegion :=
  r.updateElement (fun e => { e with children := [] }) r.loadingId

def loadingFailed (error : FormError) (r : PageRegion) : PageRegion :=
  r.updateElement (fun e => { e with
    tag := (e.tag.setAttribute "data-state" "failed").setAttribute "title" error.message })
    r.loadingId

instance : DisplayRegion PageRegion where
  attach := attach
  detach := detach
  loadingFinished := loadingFinished
  loadingFailed := loadingFailed

end PageRegion

/-- A call of a display region. -/
inductive RegionCall where
  | attach (nodes : List Node)
  | detach
  | loadingFinished
  | loadingFailed (error : FormError)
  deriving DecidableEq

/-- A region that keeps a record of its calls, the last one at the end. -/
structure Recorder where
  calls : List RegionCall := []
  deriving DecidableEq

namespace Recorder

def record (call : RegionCall) (r : Recorder) : Recorder := ⟨r.calls ++ [call]⟩

instance : DisplayRegion Recorder where
  attach nodes r := pure (r.record (.attach nodes))
  detach := record .detach
  loadingFinished := record .loadingFinished
  loadingFailed error := record (.loadingFailed error)

end Recorder

end Questionnaire
