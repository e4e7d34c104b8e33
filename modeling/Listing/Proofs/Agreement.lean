import Listing.Resource
import Mathlib.Data.List.Basic

/-!
What a request is read for. Each part of a selection asks for parameters by names of its own: the
window for two, the order for two, the search and the filters for one each, and every equality rule
for its key. Requests that agree on the names a part asks for are alike in that part.
-/

set_option autoImplicit false

namespace Listing

def Parameters.AgreeOn (p q : Parameters) (names : List String) : Prop :=
  ∀ name ∈ names, p.get? name = q.get? name

def Parameters.AgreeExcept (p q : Parameters) (name : String) : Prop :=
  ∀ other, other ≠ name → p.get? other = q.get? other

theorem Parameters.AgreeExcept.agreeOn {p q : Parameters} {name : String}
    (h : p.AgreeExcept q name) {names : List String} (hn : name ∉ names) : p.AgreeOn q names :=
  fun other ho => h other fun he => hn (he ▸ ho)

theorem Parameters.AgreeOn.mono {p q : Parameters} {names fewer : List String}
    (h : p.AgreeOn q names) (hf : fewer ⊆ names) : p.AgreeOn q fewer :=
  fun name hn => h name (hf hn)

theorem Parameters.stripped?_congr {p q : Parameters} {name : String}
    (h : p.get? name = q.get? name) : p.stripped? name = q.stripped? name := by
  rw [stripped?, stripped?, h]

theorem Parameters.pick_of_stripped {p q : Parameters} {names : List String}
    (h : ∀ name ∈ names, p.stripped? name = q.stripped? name) : p.pick names = q.pick names := by
  unfold pick
  congr 1
  refine List.filterMap_congr fun name hn => ?_
  rw [h name hn]

theorem Parameters.pick_congr {p q : Parameters} {names : List String} (h : p.AgreeOn q names) :
    p.pick names = q.pick names :=
  pick_of_stripped fun name hn => stripped?_congr (h name hn)

theorem PageLimits.resolve_of_requested {limits : PageLimits} {p q : Parameters}
    (hpage : requestedPage p = requestedPage q)
    (hsize : limits.requestedSize p = limits.requestedSize q) :
    limits.resolve p = limits.resolve q := by
  unfold resolve
  rw [hpage, hsize]

theorem PageLimits.resolve_congr (limits : PageLimits) {p q : Parameters}
    (h : p.AgreeOn q ["page", "pageSize"]) : limits.resolve p = limits.resolve q := by
  have hpage : p.get? "page" = q.get? "page" := h "page" (by simp)
  have hsize : p.get? "pageSize" = q.get? "pageSize" := h "pageSize" (by simp)
  refine resolve_of_requested ?_ ?_
  · rw [requestedPage, requestedPage, hpage]
  · rw [requestedSize, requestedSize, hsize]

theorem SortRules.resolve_congr (rules : SortRules) {p q : Parameters}
    (h : p.AgreeOn q ["sortField", "sortOrder"]) : rules.resolve p = rules.resolve q := by
  have hfield : p.get? "sortField" = q.get? "sortField" := h "sortField" (by simp)
  have horder : p.get? "sortOrder" = q.get? "sortOrder" := h "sortOrder" (by simp)
  unfold resolve resolveColumn resolveDirection
  rw [hfield, horder]

theorem Search.term?_congr {p q : Parameters} (h : p.AgreeOn q ["search"]) :
    term? p = term? q :=
  Parameters.stripped?_congr (h "search" (by simp))

theorem Filter.conditions_congr (fields : FieldTable) {p q : Parameters}
    (h : p.AgreeOn q ["filters"]) : conditions fields p = conditions fields q := by
  rw [conditions, conditions, h "filters" (by simp)]

namespace Resource

/-- The names that mean the same for every resource. -/
def commonNames : List String :=
  ["page", "pageSize", "search", "sortField", "sortOrder", "filters"]

def keys (r : Resource) : List String :=
  r.equality.map (·.key)

def names (r : Resource) : List String :=
  commonNames ++ r.keys

theorem resolve_of_parts {r : Resource} {p q : Parameters}
    (hwindow : r.limits.resolve p = r.limits.resolve q)
    (hconditions : Filter.conditions r.fields p = Filter.conditions r.fields q)
    (horder : r.sorting.resolve p = r.sorting.resolve q) (hpick : p.pick r.keys = q.pick r.keys)
    (hterm : Search.term? p = Search.term? q) : r.resolve p = r.resolve q := by
  have hpicked : p.pick (r.equality.map (·.key)) = q.pick (r.equality.map (·.key)) := hpick
  unfold resolve
  rw [hwindow, hconditions, horder, hpicked, hterm]

/-- Nothing of a request counts but the last text under each of the resource's names. -/
theorem resolve_congr (r : Resource) {p q : Parameters} (h : p.AgreeOn q r.names) :
    r.resolve p = r.resolve q := by
  have hcommon : p.AgreeOn q commonNames := h.mono (List.subset_append_left ..)
  have hkeys : p.AgreeOn q r.keys := h.mono (List.subset_append_right ..)
  exact resolve_of_parts (r.limits.resolve_congr (hcommon.mono (by simp [commonNames])))
    (Filter.conditions_congr r.fields (hcommon.mono (by simp [commonNames])))
    (r.sorting.resolve_congr (hcommon.mono (by simp [commonNames])))
    (Parameters.pick_congr hkeys) (Search.term?_congr (hcommon.mono (by simp [commonNames])))

end Resource
end Listing
