import ApiDocs.Proofs.Slots
import ApiDocs.Route

/-!
# Responses of an operation

Three layers write into one map: the response of success, the configured error responses that a record
selects, and the record's own wording. What a code is answered with is read off the three layers at
that code alone.
-/

namespace ApiDocs

theorem Content.get?_forReference (reference media : String) :
    (Content.forReference reference).get? media =
      if media ∈ contentTypes then some reference else none := by
  unfold Content.forReference contentTypes
  simp only [Dict.ofList, List.map_cons, List.map_nil, List.foldl_cons, List.foldl_nil,
    Dict.get?_insert, Dict.get?_empty, List.mem_cons, List.not_mem_nil, or_false]
  split_ifs <;> simp_all

namespace RouteContext

theorem customize_eq (r : Record) (code : String) (response : Response) :
    customize r code response = {
      description := (r.customErrorDescriptions.get? code).getD
        (if (r.customErrorRefs.get? code).isSome then Status.description code else response.description)
      content := match r.customErrorRefs.get? code with
        | some name => some (Content.forReference (schemaRef name))
        | none => response.content } := by
  unfold customize
  cases r.customErrorRefs.get? code <;> cases r.customErrorDescriptions.get? code <;> rfl

theorem selects_iff (r : Record) (code : String) :
    selects r code = true ↔ r.errorStatusCodes = [] ∨ code ∈ r.errorStatusCodes := by
  simp [selects]

theorem content_successResponse (r : Record) : (successResponse r).content =
    if Text.trim r.responseRef = "" then none
    else some (Content.forReference (schemaRef (Text.trim r.responseRef))) := by
  by_cases hblank : Text.trim r.responseRef = ""
  · simp [successResponse, nonBlank?, hblank]
  · simp [successResponse, nonBlank?, hblank]

theorem get?_responses (ctx : RouteContext) (r : Record) (code : String) :
    (ctx.responses r).get? code =
      (((if selects r code then ctx.errorResponses.get? code else none).or
        (if code = successCode r then some (successResponse r) else none)).map (customize r code)) := by
  have hsorted : (ctx.errorResponses.entries.filter fun e => selects r e.1).Pairwise
      fun x y => x.1 < y.1 := ctx.errorResponses.sorted.filter _
  have hover := Dict.get?_overlay (Dict.empty.insert (successCode r) (successResponse r)) hsorted code
  rw [Dict.lookup_filter_key, Dict.get?_insert, Dict.get?_empty] at hover
  unfold responses
  simp only [Dict.get?, Dict.lookup_map]
  exact congrArg (Option.map (customize r code)) hover

/-- The responses of an operation, code by code. Only the code of success and the selected error codes
are answered; a reference or a description of the record for another code adds nothing. -/
theorem response_at_code (ctx : RouteContext) (r : Record) (m : Method) (path code : String) :
    let success := if r.statusCode = "" then "200" else r.statusCode
    let error? := if r.errorStatusCodes = [] ∨ code ∈ r.errorStatusCodes then
      ctx.errorResponses.get? code else none
    let reference? := r.customErrorRefs.get? code
    (ctx.operation r m path).responses.get? code =
      (if code = success ∨ error?.isSome then some {
        description := (r.customErrorDescriptions.get? code).getD
          (if reference?.isSome then Status.description code
            else (error?.map (·.description)).getD (Status.description code))
        content := match reference?, error? with
          | some name, _ => some (Content.forReference (schemaRef name))
          | none, some error => error.content
          | none, none =>
            if Text.trim r.responseRef = "" then none
            else some (Content.forReference (schemaRef (Text.trim r.responseRef))) }
      else none) ∧
    ∀ name media, (Content.forReference (schemaRef name)).get? media =
      if media ∈ contentTypes then some ("#/components/schemas/" ++ name) else none := by
  intro success error? reference?
  refine ⟨?_, fun name media => Content.get?_forReference (schemaRef name) media⟩
  have hsuccess : successCode r = success := by simp [successCode, success]
  have herror : (if selects r code then ctx.errorResponses.get? code else none) = error? := by
    simp only [selects_iff, error?]
  have hresponses : (ctx.operation r m path).responses = ctx.responses r := rfl
  rw [hresponses, get?_responses, herror, hsuccess]
  -- a selected error counts before the response of success
  cases herr : error? with
  | some error =>
    rw [if_pos (Or.inr Option.isSome_some), Option.some_or, Option.map_some, customize_eq]
    cases href : reference? <;> simp [reference?, href] at href ⊢
  | none =>
    by_cases hcode : code = success
    · have hdescription : (successResponse r).description = Status.description code := by
        rw [hcode, ← hsuccess]
        rfl
      rw [if_pos hcode, if_pos (Or.inl hcode), Option.none_or, Option.map_some, customize_eq,
        content_successResponse, hdescription]
      cases href : reference? <;> simp [reference?, href] at href ⊢
    · simp [hcode]

end RouteContext

end ApiDocs
