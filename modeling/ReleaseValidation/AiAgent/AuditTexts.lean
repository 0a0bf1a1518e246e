import ReleaseValidation.AiAgent.Verdicts
import ReleaseValidation.Foundations.JsonPrefixes

/-! # The texts of the audit

`record_invocation` sends the input and the output of a tool call as JSON texts that are cut
off at a fixed length. The columns are JSONB: a text has to be a document, and none of its
strings may hold the character NUL. An insert that is refused is only logged, and the call
does not appear in the trail of its session.
-/
namespace ReleaseValidation.AiAgent.AuditTexts
open JsonTexts Verdicts

/-- A tool call as it is audited; an output is what the default of the serialiser has made of it. -/
structure ToolCall where
  input : List (Str × Value)
  output : Value
  status : String
  durationMs : ℕ
  definitionSlug : Option String

/-- `json.dumps(tool_input)[:50_000]`. -/
def ToolCall.sentInput (c : ToolCall) : Text := (dump (.obj c.input)).take 50000

/-- `json.dumps(output, default=str)[:200_000] if output is not None else None`. -/
def ToolCall.sentOutput (c : ToolCall) : Option Text :=
  match c.output with
  | .null => none
  | output => some ((dump output).take 200000)

def withoutNul (v : Value) : Bool := (strings v).all fun s => !s.contains 0

/-- A JSONB column takes the text. -/
def acceptable (t : Text) : Bool := (read t).any withoutNul

/-- The insert of `record_invocation` succeeds. -/
def ToolCall.accepted (c : ToolCall) : Bool := acceptable c.sentInput && c.sentOutput.all acceptable

/-- The value has a document, and one that a JSONB column takes. -/
structure Storable (v : Value) : Prop where
  finite : finite v = true
  withoutNul : ∀ s ∈ strings v, 0 ∉ s

/-- A number so long that it is cut, and still is one. -/
def CutNumber (v : Value) (k : ℕ) : Prop := ∃ n, v = .num n ∧ k < n.literal.length ∧ isNumber (n.literal.take k) = true

/-- The value fits in its column: its text is not cut, a number apart, and it can be stored. -/
def Fits (v : Value) (k : ℕ) : Prop := (dump v).length ≤ k ∧ Storable v ∨ CutNumber v k

theorem withoutNul_iff {v : Value} : withoutNul v = true ↔ ∀ s ∈ strings v, 0 ∉ s := by
  simp [withoutNul]

theorem acceptable_dump_iff (v : Value) : acceptable (dump v) = true ↔ Storable v := by
  rw [acceptable, read_dump, decode]
  cases hf : finite v with
  | false =>
    constructor
    · intro h
      cases h
    · intro h
      rw [h.finite] at hf
      cases hf
  | true =>
    rw [if_pos rfl, Option.any_some, withoutNul_iff, strings_mapStrings]
    simp only [List.forall_mem_map, zero_mem_merge]
    exact ⟨fun h => ⟨hf, h⟩, fun h => h.withoutNul⟩

/-- What is left of a value's text is taken exactly if the value fits. -/
theorem acceptable_take_iff (v : Value) (k : ℕ) : acceptable ((dump v).take k) = true ↔ Fits v k := by
  by_cases hk : (dump v).length ≤ k
  · have hnumber : ¬ CutNumber v k := by
      rintro ⟨n, rfl, hlt, -⟩
      exact absurd hk (Nat.not_le_of_lt hlt)
    rw [List.take_of_length_le hk, acceptable_dump_iff, Fits, or_iff_left hnumber, and_iff_right hk]
  · have hlt : k < (dump v).length := Nat.lt_of_not_le hk
    rw [Fits, or_iff_right (fun h => hk h.1)]
    constructor
    · intro h
      obtain ⟨w, hw, -⟩ := (Option.any_eq_true _ _).mp h
      obtain ⟨n, rfl, hcut, -⟩ := read_cut hlt hw
      exact ⟨n, rfl, hlt, hcut⟩
    · rintro ⟨n, rfl, -, hcut⟩
      have hread : read (n.literal.take k) = some (.num ⟨n.literal.take k, hcut⟩) := read_number ⟨_, hcut⟩
      change (read (n.literal.take k)).any withoutNul = true
      rw [hread]
      rfl

theorem fits_obj_iff (fields : List (Str × Value)) (k : ℕ) :
    Fits (.obj fields) k ↔ (dump (.obj fields)).length ≤ k ∧ Storable (.obj fields) := by
  refine or_iff_left ?_
  rintro ⟨n, h, -⟩
  cases h

/-- The texts that are sent for a call are acceptable exactly if its input and its output fit. -/
theorem accepted_iff (c : ToolCall) :
    c.accepted = true ↔
      ((dump (.obj c.input)).length ≤ 50000 ∧ Storable (.obj c.input)) ∧ (c.output = .null ∨ Fits c.output 200000) := by
  rw [ToolCall.accepted, Bool.and_eq_true, ToolCall.sentInput, acceptable_take_iff, fits_obj_iff]
  refine and_congr_right fun _ => ?_
  have hsent : ∀ output : Value, c.output = output → output ≠ .null →
      c.sentOutput = some ((dump output).take 200000) := by
    rintro output rfl hne
    unfold ToolCall.sentOutput
    split
    next h => exact absurd h hne
    next => rfl
  by_cases hnull : c.output = .null
  · have hnone : c.sentOutput = none := by
      unfold ToolCall.sentOutput
      rw [hnull]
    rw [hnone]
    exact iff_of_true rfl (Or.inl hnull)
  · rw [hsent c.output rfl hnull, Option.all_some, acceptable_take_iff, or_iff_right hnull]

section Trail

/-- The database during a call: the audit row is inserted if its texts are accepted. -/
def auditing (c : ToolCall) (now : ℕ) : Database := ⟨true, true, c.accepted, now⟩

/-- The calls that have left a row. -/
def audited (s : Verdicts.State ToolCall) : List ToolCall := s.invocations.map Invocation.content

/-- A call appears in the audit exactly if its texts were accepted. -/
theorem audited_iff (s : Verdicts.State ToolCall) (call : Call ToolCall) (now : ℕ) :
    audited (s.recordInvocation call (auditing call.content now)) = audited s ++ [call.content] ↔
      call.content.accepted = true := by
  unfold State.recordInvocation auditing audited
  cases h : call.content.accepted with
  | true => simp
  | false => simp

/-- The texts of a call are acceptable, and the call appears in the audit, exactly if its input has a
text of at most 50000 characters, its output one of at most 200000 or a number that can be cut, and no
string in them holds NUL and no number is infinite or undefined. -/
theorem call_audited_iff (s : Verdicts.State ToolCall) (call : Call ToolCall) (now : ℕ) :
    (call.content.accepted = true ∧
      audited (s.recordInvocation call (auditing call.content now)) = audited s ++ [call.content]) ↔
      ((dump (.obj call.content.input)).length ≤ 50000 ∧ Storable (.obj call.content.input)) ∧
        (call.content.output = .null ∨ Fits call.content.output 200000) := by
  rw [audited_iff, and_self_iff, accepted_iff]

end Trail

def codePoints (s : String) : Str := s.toList.map fun c => Fin.ofNat _ c.toNat

/-- A call with an argument of `n` letters. -/
def longCall (n : ℕ) : Call ToolCall where
  sessionId := 0
  toolName := "run_cast_command"
  input := []
  content :=
    { input := [(codePoints "command", .str (List.replicate n 0x61))]
      output := .obj [(codePoints "success", .bool true)]
      status := "ok"
      durationMs := 12
      definitionSlug := none }

theorem length_escapes (s : Str) : s.length ≤ (escapes s).length := by
  have hone : ∀ x : CodePoint, 1 ≤ (escape x).length := by
    intro x
    fun_cases escape x <;> simp [unitEscape]
  induction s with
  | nil => exact Nat.le_refl 0
  | cons x s ih =>
    have hx := hone x
    rw [escapes, List.flatMap_cons, List.length_append, List.length_cons, ← escapes]
    omega

theorem long_call_length (n : ℕ) : n < (dump (.obj (longCall n).content.input)).length := by
  have hs := length_escapes (List.replicate n 0x61)
  rw [List.length_replicate] at hs
  simp only [longCall, dump, dumpFields, joined, dumpField, dumpStr, List.length_append, List.length_cons]
  omega

/-- The text of a call with 50000 letters is cut in the middle of a string, and the call is not audited. -/
theorem long_call_lost : (longCall 50000).content.accepted = false ∧
    audited ((Verdicts.initial : Verdicts.State ToolCall).recordInvocation (longCall 50000)
      (auditing (longCall 50000).content 0)) = [] := by
  have hrefused : (longCall 50000).content.accepted = false := by
    rw [ToolCall.accepted, Bool.and_eq_false_iff]
    left
    rw [← Bool.not_eq_true, ToolCall.sentInput, acceptable_take_iff, fits_obj_iff]
    exact fun h => absurd h.1 (Nat.not_le_of_lt (long_call_length 50000))
  refine ⟨hrefused, ?_⟩
  unfold State.recordInvocation auditing
  rw [hrefused]
  rfl

end ReleaseValidation.AiAgent.AuditTexts
