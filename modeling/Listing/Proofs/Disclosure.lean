import Listing.Proofs.Exchanges
import Mathlib.Data.List.TakeWhile

set_option autoImplicit false

namespace Listing

namespace Text

/-- The first word of a text, with blanks before it, and after it a blank or the end. -/
inductive FirstWord (s : String) : Option String → Prop
  | word {before word after : List Char} (hs : s.toList = before ++ (word ++ after))
    (hbefore : ∀ c ∈ before, isBlank c = true) (hword : ∀ c ∈ word, isBlank c = false)
    (hne : word ≠ []) (hafter : ∀ c ∈ after.head?, isBlank c = true) :
    FirstWord s (some (String.ofList word))
  | none (h : ∀ c ∈ s.toList, isBlank c = true) : FirstWord s none

theorem firstWord_firstWord? (s : String) : FirstWord s (firstWord? s) := by
  have hs : s.toList = s.toList.takeWhile isBlank ++
      ((stripStart s.toList).takeWhile (fun c => !isBlank c) ++
        (stripStart s.toList).dropWhile fun c => !isBlank c) := by
    rw [List.takeWhile_append_dropWhile, stripStart, List.takeWhile_append_dropWhile]
  have hbefore : ∀ c ∈ s.toList.takeWhile isBlank, isBlank c = true := fun c hc =>
    List.mem_takeWhile_imp hc
  have hword : ∀ c ∈ (stripStart s.toList).takeWhile (fun c => !isBlank c), isBlank c = false :=
    fun c hc => by simpa using List.mem_takeWhile_imp hc
  unfold firstWord?
  split
  · -- a text that does not start with a word has nothing but blanks
    next hnone =>
    have hrest : stripStart s.toList = [] := by
      cases hstart : stripStart s.toList with
      | nil => rfl
      | cons c rest =>
        have hc : isBlank c = false :=
          head?_dropWhile_isBlank s.toList c (by rw [← stripStart, hstart]; rfl)
        simp [hstart, hc] at hnone
    rw [hrest] at hs
    simp only [List.takeWhile_nil, List.dropWhile_nil, List.append_nil] at hs
    exact .none fun c hc => hbefore c (hs ▸ hc)
  · next hne =>
    refine .word hs hbefore hword hne fun c hc => ?_
    have hafter := List.head?_dropWhile_not (fun c => !isBlank c) (stripStart s.toList)
    rw [Option.mem_def.1 hc] at hafter
    simpa using hafter

theorem firstWord?_eq_iff {s : String} {word : Option String} :
    firstWord? s = word ↔ FirstWord s word := by
  refine ⟨fun h => h ▸ firstWord_firstWord? s, fun h => ?_⟩
  cases h with
  | @word before word after hs hbefore hword hne hafter =>
    obtain ⟨c, rest, rfl⟩ := List.exists_cons_of_ne_nil hne
    have hc : isBlank c = false := hword c List.mem_cons_self
    have hstart : stripStart s.toList = c :: rest ++ after := by
      rw [hs, stripStart, List.dropWhile_append_of_pos hbefore, List.cons_append,
        List.dropWhile_cons_of_neg (by simp [hc])]
    have hend : after.takeWhile (fun c => !isBlank c) = [] := by
      cases after with
      | nil => rfl
      | cons d after => simp [hafter d rfl]
    have htake : (stripStart s.toList).takeWhile (fun c => !isBlank c) = c :: rest := by
      rw [hstart, List.takeWhile_append_of_pos fun d hd => by simp [hword d hd], hend,
        List.append_nil]
    rw [firstWord?, htake]
  | none h =>
    have hstart : stripStart s.toList = [] := List.dropWhile_eq_nil_iff.2 h
    rw [firstWord?, hstart]
    rfl

end Text

/-- Faults that no answer tells apart. -/
inductive Fault.Alike : Fault → Fault → Prop
  | failed (kind kind' : FaultKind) (message message' : String) :
    Alike (.failed kind message) (.failed kind' message')
  | recordNotFound {message message' : String} {word : Option String}
    (h : Text.FirstWord message word) (h' : Text.FirstWord message' word) :
    Alike (.recordNotFound message) (.recordNotFound message')

def Response.withheld : Response where
  status := .internalError
  contentType := some "application/json"
  body := "\x7b\"success\":false,\"error\":\"A database error occurred\"\x7d"

def Response.missing (word : Option String) : Response :=
  .json .notFound (.object [("success", .bool false),
    ("error", .string (word.getD "Resource" ++ " not found"))])

namespace Failure

theorem answer_failed (kind : FaultKind) (message : String) :
    (ofFault (.failed kind message)).answer.value = .withheld := by
  have hbody : (Json.Value.object [("success", .bool false),
      ("error", .string "A database error occurred")]).text = Response.withheld.body := by
    cbv
  exact congrArg (fun body => { Response.withheld with body }) hbody

theorem answer_recordNotFound {message : String} {word : Option String}
    (h : Text.FirstWord message word) :
    (ofFault (.recordNotFound message)).answer.value = .missing word := by
  rw [ofFault, Text.firstWord?_eq_iff.2 h]
  rfl

theorem answer_eq_of_alike {f g : Fault} (h : f.Alike g) :
    (ofFault f).answer.value = (ofFault g).answer.value := by
  cases h with
  | failed => rw [answer_failed, answer_failed]
  | recordNotFound h h' => rw [answer_recordNotFound h, answer_recordNotFound h']

end Failure

namespace Endpoint

variable (e : Endpoint) {session other : Session}

theorem answer_of_firstFault {f : Fault} (h : FirstFault e.rows session.replies f)
    (query : String) :
    (e.list query session).value.response = (Failure.ofFault f).answer.value :=
  (e.list_of_firstFault query h).1

theorem response_handle_congr (request : Request)
    (h : ∀ query, (e.list query session).value.response = (e.list query other).value.response) :
    (e.handle request session).value.response = (e.handle request other).value.response := by
  unfold handle
  dsimp only
  split
  · rfl
  split
  · exact h _
  split
  · exact congrArg Response.withoutBody (h _)
  · rfl

theorem handle_head {request : Request} (hmethod : request.method = "HEAD")
    (hpath : (Target.ofText request.target).path = e.path) :
    (e.handle request session).value.response =
      (e.list (Target.ofText request.target).query session).value.response.withoutBody := by
  simp [handle, hmethod, hpath]

theorem handle_of_firstFault {request : Request} {f : Fault}
    (hpath : (Target.ofText request.target).path = e.path)
    (h : FirstFault e.rows session.replies f) :
    (request.method = "GET" →
      (e.handle request session).value.response = (Failure.ofFault f).answer.value) ∧
    (request.method = "HEAD" → (e.handle request session).value.response =
      (Failure.ofFault f).answer.value.withoutBody) := by
  constructor
  · intro hget
    rw [e.handle_get hget hpath, e.answer_of_firstFault h]
  · intro hhead
    rw [e.handle_head hhead hpath, e.answer_of_firstFault h]

/-- Whatever statement was refused and whatever row did not decode, requests are answered alike
for faults that are alike. A missing record shows by the first word of its message; of any other
fault no more shows than that there was one. -/
theorem answers_withhold_the_fault (e : Endpoint) (request : Request) {session other : Session}
    {f g : Fault} (hf : FirstFault e.rows session.replies f)
    (hg : FirstFault e.rows other.replies g) (h : f.Alike g) :
    let answer := (e.handle request session).value.response
    answer = (e.handle request other).value.response ∧
    ((Target.ofText request.target).path = e.path →
      (∀ kind message, f = .failed kind message →
        (request.method = "GET" → answer = .withheld) ∧
        (request.method = "HEAD" → answer = Response.withheld.withoutBody)) ∧
      ∀ message word, f = .recordNotFound message → Text.FirstWord message word →
        (request.method = "GET" → answer = .missing word) ∧
        (request.method = "HEAD" → answer = (Response.missing word).withoutBody)) := by
  intro answer
  refine ⟨e.response_handle_congr request fun query => ?_, fun hpath => ⟨?_, ?_⟩⟩
  · rw [e.answer_of_firstFault hf, e.answer_of_firstFault hg, Failure.answer_eq_of_alike h]
  · rintro kind message rfl
    rw [← Failure.answer_failed kind message]
    exact e.handle_of_firstFault hpath hf
  · rintro message word rfl hword
    rw [← Failure.answer_recordNotFound hword]
    exact e.handle_of_firstFault hpath hf

theorem answers_withhold_the_fault_client :
    let e : Endpoint :=
      { path := "/participants", resource := .participants, dialect := .postgres }
    let page : Reply := .rows [{ entries := [("id", .integer 7), ("name", .text "Ada")] }]
    let long : Fault := .recordNotFound "\tClient 17 of relation clients"
    let short : Fault := .recordNotFound "Client"
    let session : Session := { replies := [page, .fault long] }
    let other : Session := { replies := [page, .fault short] }
    let request : Request := { method := "GET", target := "/participants?page=2" }
    FirstFault e.rows session.replies long ∧ FirstFault e.rows other.replies short ∧
      long.Alike short ∧ (Target.ofText request.target).path = e.path ∧
      (e.handle request session).value.response = (e.handle request other).value.response ∧
      (e.handle request session).value.response = .missing (some "Client") := by
  intro e page long short session other request
  have hpage (replies : List Reply) :
      PageGiven e.rows (page :: replies) [{ id := 7, name := "Ada", note := none }] :=
    .rows (.cons rfl .nil)
  have hlong : FirstFault e.rows session.replies long := .inr ⟨⟨_, hpage _⟩, .refused ..⟩
  have hshort : FirstFault e.rows other.replies short := .inr ⟨⟨_, hpage _⟩, .refused ..⟩
  have hword (message : String) (h : Text.firstWord? message = some "Client") :
      Text.FirstWord message (some "Client") :=
    Text.firstWord?_eq_iff.1 h
  have halike : long.Alike short :=
    .recordNotFound (hword _ (by decide +kernel)) (hword _ (by decide +kernel))
  have hpath : (Target.ofText request.target).path = e.path := by decide +kernel
  have hanswers := answers_withhold_the_fault e request hlong hshort halike
  exact ⟨hlong, hshort, halike, hpath, hanswers.1,
    ((hanswers.2 hpath).2 _ _ rfl (hword _ (by decide +kernel))).1 rfl⟩

end Endpoint

end Listing
