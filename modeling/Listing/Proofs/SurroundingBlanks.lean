import Listing.Proofs.Agreement
import Listing.Resource.Samples

set_option autoImplicit false

namespace Listing

/-- A text with blanks put before and after it. -/
def Text.Padded (raw text : String) : Prop :=
  ∃ before after : List Char, (∀ c ∈ before, isBlank c = true) ∧ (∀ c ∈ after, isBlank c = true) ∧
    text.toList = before ++ raw.toList ++ after

theorem Text.Padded.strip_eq {raw text : String} (h : Text.Padded raw text) :
    strip text = strip raw := by
  obtain ⟨before, after, hbefore, hafter, htext⟩ := h
  rw [strip, htext, stripChars_surrounded hbefore _ hafter, strip]

theorem readPositive_of_padded {raw text : String} (h : Text.Padded raw text) :
    readPositive? text = readPositive? raw := by
  rw [readPositive?, h.strip_eq, readPositive?]

namespace Parameters

/-- The texts of some names are padded, each in a way of its own, and nothing else is changed. -/
structure Padded (params padded : Parameters) (names : List String) : Prop where
  within : ∀ name ∈ names, Option.Rel Text.Padded (params.get? name) (padded.get? name)
  outside : ∀ name, name ∉ names → padded.get? name = params.get? name

variable {params padded : Parameters} {names : List String} {name : String}

theorem Padded.bind_eq {α : Type} {f : String → Option α} (h : params.Padded padded names)
    (hname : name ∈ names) (hf : ∀ raw text, Text.Padded raw text → f text = f raw) :
    (padded.get? name).bind f = (params.get? name).bind f := by
  have hrel := h.within name hname
  generalize params.get? name = found, padded.get? name = found' at hrel ⊢
  cases hrel with
  | some htext => exact hf _ _ htext
  | none => rfl

theorem Padded.stripped?_eq (h : params.Padded padded names) (hname : name ∈ names) :
    padded.stripped? name = params.stripped? name :=
  h.bind_eq hname fun _ _ htext => by rw [htext.strip_eq]

end Parameters

namespace Resource

def strippedNames (r : Resource) : List String :=
  ["page", "pageSize", "search"] ++ r.keys

variable {r : Resource} {params padded : Parameters}

theorem limits_of_padded (h : params.Padded padded r.strippedNames) :
    r.limits.resolve padded = r.limits.resolve params := by
  have hread := fun raw text (h : Text.Padded raw text) => readPositive_of_padded h
  refine PageLimits.resolve_of_requested ?_ ?_
  · rw [PageLimits.requestedPage, h.bind_eq (by simp [strippedNames]) hread,
      PageLimits.requestedPage]
  · rw [PageLimits.requestedSize, h.bind_eq (by simp [strippedNames]) hread,
      PageLimits.requestedSize]

theorem agreeOn_of_padded (hkeys : ∀ key ∈ r.keys, key ∉ ["sortField", "sortOrder", "filters"])
    (h : params.Padded padded r.strippedNames) :
    padded.AgreeOn params ["sortField", "sortOrder", "filters"] := by
  have hcommon : ∀ name ∈ ["sortField", "sortOrder", "filters"],
      name ∉ ["page", "pageSize", "search"] := by decide
  intro name hname
  refine h.outside name fun hstripped => ?_
  exact (List.mem_append.1 hstripped).elim (hcommon name hname) fun hkey => hkeys name hkey hname

/-- Any text that is stripped may have blanks put around it, be it a number, a term or the value of
a rule, and it is the same selection with the same notices. -/
theorem surrounding_blanks_make_no_difference (r : Resource) (params padded : Parameters)
    (hkeys : ∀ key ∈ r.keys, key ∉ ["sortField", "sortOrder", "filters"])
    (h : params.Padded padded r.strippedNames) :
    (r.resolve padded).value = (r.resolve params).value ∧
      (r.resolve padded).notices = (r.resolve params).notices := by
  have hkept := agreeOn_of_padded hkeys h
  have hfilters : Filter.conditions r.fields padded = Filter.conditions r.fields params :=
    Filter.conditions_congr r.fields (hkept.mono (by simp))
  have horder : r.sorting.resolve padded = r.sorting.resolve params :=
    r.sorting.resolve_congr (hkept.mono (by simp))
  have hpick : padded.pick r.keys = params.pick r.keys :=
    Parameters.pick_of_stripped fun name hname => h.stripped?_eq (List.mem_append_right _ hname)
  have hterm : Search.term? padded = Search.term? params :=
    h.stripped?_eq (by simp [strippedNames])
  have hsame := resolve_of_parts (limits_of_padded h) hfilters horder hpick hterm
  rw [hsame]
  exact ⟨rfl, rfl⟩

theorem surrounding_blanks_make_no_difference_participants :
    let params : Parameters :=
      { entries := [("page", "2"), ("search", ""), ("role", "a b"), ("domain_id", "x")] }
    let padded : Parameters :=
      { entries := [("page", "\u00a02"), ("search", "\u3000\t"), ("role", "a b\n"),
          ("domain_id", " x\u2003")] }
    params.Padded padded participants.strippedNames ∧
      (participants.resolve padded).value = (participants.resolve params).value ∧
      (participants.resolve padded).value.window = { page := 2, size := 20 } ∧
      (participants.resolve padded).value.restriction.values = [.text "a b"] ∧
      (participants.resolve padded).notices = [.equalityUnreadable "domain_id" .integer] := by
  intro params padded
  have haround (raw text : String) (before after : List Char) (hbefore : before.all Text.isBlank)
      (hafter : after.all Text.isBlank) (h : text.toList = before ++ raw.toList ++ after) :
      Option.Rel Text.Padded (some raw) (some text) :=
    .some ⟨before, after, List.all_eq_true.1 hbefore, List.all_eq_true.1 hafter, h⟩
  have hpadded : params.Padded padded participants.strippedNames := by
    constructor
    · refine List.forall_mem_cons.2 ⟨haround "2" "\u00a02" ['\u00a0'] [] rfl rfl rfl, ?_⟩
      refine List.forall_mem_cons.2 ⟨.none, ?_⟩
      refine List.forall_mem_cons.2 ⟨haround "" "\u3000\t" ['\u3000'] ['\t'] rfl rfl rfl, ?_⟩
      refine List.forall_mem_cons.2 ⟨haround "x" " x\u2003" [' '] ['\u2003'] rfl rfl rfl, ?_⟩
      exact List.forall_mem_singleton.2 (haround "a b" "a b\n" [] ['\n'] rfl rfl rfl)
    · intro name hname
      simp only [strippedNames, keys, participants, List.map_cons, List.map_nil, List.cons_append,
        List.nil_append, List.mem_cons, List.not_mem_nil, or_false, not_or] at hname
      simp [params, padded, Table.get?, List.lookup_cons, hname, beq_false_of_ne]
  obtain ⟨hvalue, hnotices⟩ :=
    surrounding_blanks_make_no_difference participants params padded (by decide) hpadded
  rw [hvalue, hnotices]
  exact ⟨hpadded, rfl, by decide +kernel, by decide +kernel, by decide +kernel⟩

end Resource
end Listing
