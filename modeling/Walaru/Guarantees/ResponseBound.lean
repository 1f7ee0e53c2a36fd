import Walaru.Guarantees.FreshSuccess
import Walaru.Source.Daemon.Responses

/-!
# The size of a response

A reduced envelope keeps the identities, the capability manifest and the codes of eight
diagnostics, and is not measured again. Its size is a constant frame and what these
parts take, so it obeys the limit exactly when they leave it room.
-/
namespace Walaru
open Json Lib.StateResult

def CapabilityManifest.keptBytes (m : CapabilityManifest) : Nat :=
  quotedBytes m.backend + quotedBytes m.completeness.text + textListBytes m.supported +
    textMapBytes m.unavailable

/-- The bytes of the texts that stay in a reduced envelope. -/
def Envelope.keptBytes (e : Envelope) : Nat :=
  quotedBytes e.schemaVersion + quotedBytes e.workspaceId + quotedBytes e.revision +
    quotedBytes e.sessionId + e.runId.elim 4 quotedBytes + e.capabilities.keptBytes +
    textListBytes ((e.diagnostics.take 8).map Diagnostic.code)

/-- The bytes of a reduced envelope around these texts: the member names, the status, the
limit diagnostic, the flag, and the digits of both sizes. -/
def frameBytes (originalBytes maxBytes : Nat) : Nat :=
  444 + decimalBytes originalBytes + decimalBytes maxBytes

theorem truncatedData_sorted (originalBytes maxBytes : Nat) (codes : List String) :
    truncatedData originalBytes maxBytes codes =
      .object [("diagnosticCodes", .ofStrings codes), ("maxBytes", .ofNat maxBytes),
        ("originalBytes", .ofNat originalBytes), ("truncated", .bool true)] := by
  have order : compare "originalBytes" "truncated" = .lt ∧ compare "maxBytes" "originalBytes" = .lt ∧
      compare "diagnosticCodes" "maxBytes" = .lt := by decide
  simp only [truncatedData, ofMembers, List.foldl_cons, List.foldl_nil, insertField, order]

theorem manifest_byteSize (floats : FloatWriter) (m : CapabilityManifest) :
    byteSize floats m.json = 56 + m.keptBytes := by
  have names : quotedBytes "backend" = 9 ∧ quotedBytes "completeness" = 14 ∧
      quotedBytes "supported" = 11 ∧ quotedBytes "unavailable" = 13 := by decide
  obtain ⟨backend, completeness, supported, unavailable⟩ := names
  simp only [CapabilityManifest.json, byteSize_object, List.map_cons, List.map_nil, memberBytes,
    byteSize_string, byteSize_ofStrings, byteSize_ofMap, separatedBytes, List.sum_cons, List.sum_nil,
    List.length_cons, List.length_nil, CapabilityManifest.keptBytes, backend, completeness, supported,
    unavailable]
  omega

theorem limitDiagnostic_byteSize (floats : FloatWriter) :
    byteSize floats responseLimitDiagnostic.json = 166 := by
  have names : quotedBytes "code" = 6 ∧ quotedBytes "severity" = 10 ∧ quotedBytes "message" = 9 ∧
      quotedBytes "details" = 9 := by decide
  have texts : quotedBytes responseLimitDiagnostic.code = 23 ∧
      quotedBytes responseLimitDiagnostic.severity = 9 ∧
      quotedBytes responseLimitDiagnostic.message = 89 := by decide +kernel
  have empty : textMapBytes responseLimitDiagnostic.details = 2 := rfl
  simp only [Diagnostic.json, byteSize_object, List.map_cons, List.map_nil, memberBytes,
    byteSize_string, byteSize_ofMap, separatedBytes, List.sum_cons, List.sum_nil, List.length_cons,
    List.length_nil, names, texts, empty]
  omega

/-- An envelope is its member names and marks, and what the members take. -/
theorem Envelope.bytes_eq (floats : FloatWriter) (e : Envelope) :
    e.bytes floats = 195 + quotedBytes e.schemaVersion + quotedBytes e.workspaceId +
      quotedBytes e.revision + quotedBytes e.sessionId + e.runId.elim 4 quotedBytes +
      quotedBytes e.status.text + byteSize floats e.data +
      byteSize floats (.array (e.diagnostics.map Diagnostic.json)) + e.capabilities.keptBytes +
      byteSize floats (.array (e.nextActions.map NextAction.json)) +
      byteSize floats (.ofOption Page.json e.page) := by
  have names : quotedBytes "schemaVersion" = 15 ∧ quotedBytes "workspaceId" = 13 ∧
      quotedBytes "revision" = 10 ∧ quotedBytes "sessionId" = 11 ∧ quotedBytes "runId" = 7 ∧
      quotedBytes "status" = 8 ∧ quotedBytes "data" = 6 ∧ quotedBytes "diagnostics" = 13 ∧
      quotedBytes "capabilities" = 14 ∧ quotedBytes "nextActions" = 13 ∧ quotedBytes "page" = 6 := by
    decide
  change byteSize floats e.json = _
  simp only [Envelope.json, byteSize_object, List.map_cons, List.map_nil, memberBytes, byteSize_string,
    byteSize_ofOption, manifest_byteSize, separatedBytes, List.sum_cons, List.sum_nil, List.length_cons,
    List.length_nil, names]
  omega

theorem truncated_bytes (floats : FloatWriter) (e : Envelope) (originalBytes maxBytes : Nat) :
    (e.truncated originalBytes maxBytes).bytes floats =
      frameBytes originalBytes maxBytes + e.keptBytes := by
  have texts : quotedBytes "diagnosticCodes" = 17 ∧ quotedBytes "maxBytes" = 10 ∧
      quotedBytes "originalBytes" = 15 ∧ quotedBytes "truncated" = 11 ∧ quotedBytes "partial" = 9 := by
    decide
  have absent : byteSize floats (.ofOption Page.json none) = 4 := rfl
  rw [Envelope.bytes_eq]
  simp only [Envelope.truncated, truncatedData_sorted, byteSize_object, List.map_cons, List.map_nil,
    memberBytes, byteSize_ofStrings, byteSize_ofNat, byteSize_array, byteSize_bool,
    limitDiagnostic_byteSize, Status.text, absent, separatedBytes, List.sum_cons, List.sum_nil,
    List.length_cons, List.length_nil, texts, if_true, frameBytes, Envelope.keptBytes]
  omega

theorem enforced_bytes (floats : FloatWriter) (e : Envelope) (maxBytes : Nat) :
    (enforceResponseLimit floats e maxBytes).1.bytes floats =
      if e.bytes floats ≤ maxBytes then e.bytes floats
      else frameBytes (e.bytes floats) maxBytes + e.keptBytes := by
  unfold enforceResponseLimit
  split
  · rfl
  · exact truncated_bytes floats e _ maxBytes

/-- The condition for the bound: the envelope fits as it is, or what a reduction keeps
leaves room for the frame. -/
def Boundable (floats : FloatWriter) (e : Envelope) (maxBytes : Nat) : Prop :=
  e.bytes floats ≤ maxBytes ∨ frameBytes (e.bytes floats) maxBytes + e.keptBytes ≤ maxBytes

/-- The envelope that is sent obeys the limit exactly when it fits as it is, or when the
identities, the capability manifest and the first eight codes leave room for the frame. -/
theorem response_bounded_iff (floats : FloatWriter) (e : Envelope) (maxBytes : Nat) :
    (enforceResponseLimit floats e maxBytes).1.bytes floats ≤ maxBytes ↔
      Boundable floats e maxBytes := by
  rw [enforced_bytes]
  unfold Boundable
  split
  · rename_i fits
    simp [fits]
  · rename_i exceeds
    simp [exceeds]

theorem utf8Size_digitChar {n : Nat} (digit : n < 10) : (Nat.digitChar n).utf8Size = 1 := by
  have table : ∀ i : Fin 10, (Nat.digitChar i).utf8Size = 1 := by decide
  exact table ⟨n, digit⟩

theorem decimalBytes_le {n digits : Nat} (small : n < 10 ^ (digits + 1)) :
    decimalBytes n ≤ digits + 1 := by
  induction digits generalizing n with
  | zero =>
    have digit : n < 10 := by simpa using small
    have size := utf8Size_digitChar digit
    change (Nat.repr n).utf8ByteSize ≤ 0 + 1
    rw [Nat.repr_of_lt digit, String.utf8ByteSize_singleton, size]
  | succ digits ih =>
    change (Nat.repr n).utf8ByteSize ≤ digits + 1 + 1
    by_cases single : n < 10
    · have size := utf8Size_digitChar single
      rw [Nat.repr_of_lt single, String.utf8ByteSize_singleton, size]
      omega
    · have rest : (Nat.repr (n / 10)).utf8ByteSize ≤ digits + 1 := by
        refine ih ?_
        rw [pow_succ] at small
        exact Nat.div_lt_of_lt_mul (by omega)
      have size := utf8Size_digitChar (n := n % 10) (Nat.mod_lt _ (by decide))
      rw [Nat.repr_of_ge (by omega), String.utf8ByteSize_append, String.utf8ByteSize_singleton, size]
      omega

theorem jvmReplayCapabilities_keptBytes : jvmReplayCapabilities.keptBytes = 471 := by decide +kernel

/-- Every answer but those of a run has the manifest of the backend. It is bounded,
whatever its data, its diagnostics' texts and its pages are. -/
theorem backend_answer_boundable (floats : FloatWriter) {e : Envelope} {maxBytes : Nat}
    (backend : e.capabilities = jvmReplayCapabilities) (addressable : e.bytes floats < 2 ^ 64)
    (admitted : 4096 ≤ maxBytes) (bounded : maxBytes ≤ 1024 * 1024)
    (named : quotedBytes e.schemaVersion + quotedBytes e.workspaceId + quotedBytes e.revision +
      quotedBytes e.sessionId + e.runId.elim 4 quotedBytes +
      textListBytes ((e.diagnostics.take 8).map Diagnostic.code) ≤ 3072) :
    Boundable floats e maxBytes := by
  have original : decimalBytes (e.bytes floats) ≤ 20 := decimalBytes_le (by omega)
  have limit : decimalBytes maxBytes ≤ 20 := decimalBytes_le (by omega)
  refine .inr ?_
  simp only [frameBytes, Envelope.keptBytes, backend, jvmReplayCapabilities_keptBytes]
  omega

theorem quotedBytes_replicate (n : Nat) (c : Char) :
    quotedBytes (String.ofList (List.replicate n c)) = 2 + n * escapedBytes c := by
  simp [quotedBytes, List.map_replicate, List.sum_replicate]

/-- The manifest of an envelope is sent whole. -/
theorem manifest_le_enforced (floats : FloatWriter) (e : Envelope) (maxBytes : Nat) :
    e.capabilities.keptBytes ≤ (enforceResponseLimit floats e maxBytes).1.bytes floats := by
  have manifest : e.capabilities.keptBytes ≤ e.bytes floats := by
    rw [Envelope.bytes_eq]
    omega
  rw [enforced_bytes]
  split
  · exact manifest
  · unfold Envelope.keptBytes
    omega

def rawCapability (test capability reason : String) : Json :=
  rawEvent "CAPABILITY" test [("capability", .string capability), ("available", .bool false),
    ("reason", .string reason)]

/-- A passing test during which a class could not be instrumented. -/
def uninstrumentedStream (reason : String) : List Json :=
  [rawStart "demo.AppTest#works", rawCapability "demo.AppTest#works" "instrumentation" reason,
    rawFinish "demo.AppTest#works" "successful"]

theorem uninstrumented_reason (ctx : IngestContext) (reason : String) :
    (evidence ctx (.lines ((uninstrumentedStream reason).map .event))).capabilities.unavailable.toList =
      [("instrumentation", reason)] := by
  rfl

def uninstrumentedRun (reason : String) : VerifierEnv :=
  quietEnv "run-1" (demoSnapshot "rev-1" "d1") true (uninstrumentedStream reason)

/-- The reason reaches the answer. -/
theorem uninstrumented_kept {reason : String} {s t : EvidenceStore} {outcome : VerificationOutcome}
    (returned : verify (uninstrumentedRun reason) .fast s = .ok outcome t)
    (fresh : outcome.cached = false) :
    quotedBytes reason ≤ outcome.capabilities.keptBytes := by
  obtain ⟨before, -, -, capabilities⟩ := fresh_answer fresh returned
  have listed : outcome.capabilities.unavailable.toList = [("instrumentation", reason)] := by
    rw [capabilities]
    exact uninstrumented_reason _ reason
  unfold CapabilityManifest.keptBytes textMapBytes
  rw [listed]
  simp only [List.map_cons, List.map_nil, separatedBytes, List.sum_cons, List.sum_nil]
  omega

/-- A reason of 4096 bytes leaves no room for the envelope around it. -/
theorem reason_exceeds_limit :
    ¬ ∀ (floats : FloatWriter) (origin : ResponseOrigin) (env : VerifierEnv)
      (request : VerificationRequest) (s t : EvidenceStore) (outcome : VerificationOutcome)
      (requeued : Bool) (maxBytes : Nat),
      verify env request s = .ok outcome t → 4096 ≤ maxBytes → maxBytes ≤ 1024 * 1024 →
        (enforceResponseLimit floats (verificationEnvelope origin outcome requeued)
          maxBytes).1.bytes floats ≤ maxBytes := by
  intro claim
  let reason := String.ofList (List.replicate 4096 'x')
  have long : quotedBytes reason = 4098 := quotedBytes_replicate 4096 'x'
  have ran : answers (fun o : VerificationOutcome => !o.cached)
      (verify (uninstrumentedRun reason) .fast (play [])) := by decide +kernel
  obtain ⟨outcome, after, returned, fresh⟩ := exists_of_answers ran
  have bounded := claim (fun _ => "0.0") ⟨"ws-1", "session-1", "rev-1"⟩ _ _ _ _ _ false 4096 returned
    (by decide) (by decide)
  have sent := manifest_le_enforced (fun _ => "0.0")
    (verificationEnvelope ⟨"ws-1", "session-1", "rev-1"⟩ outcome false) 4096
  have kept : quotedBytes reason ≤ outcome.capabilities.keptBytes :=
    uninstrumented_kept returned (by simpa using fresh)
  change outcome.capabilities.keptBytes ≤ _ at sent
  omega

end Walaru
