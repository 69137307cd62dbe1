import RustySsr.Http.AcceptEncoding
import RustySsr.Middleware.Coherence

/-!
Owns which clients get Brotli. Both middlewares look for two letters anywhere in
the `Accept-Encoding` value, whatever they are part of and whatever weight
follows. `labelsOnlyAccepted_iff` states for which values this agrees with the
grammar of the field.
-/

namespace RustySsr.Middleware

open RustySsr.Http

/-- The middleware has made another response, labelled with the coding. -/
def LabelledBrotli (inner returned : Response) : Prop :=
  returned ≠ inner ∧ "br" ∈ returned.headers.listed "content-encoding"

/-- Whatever is behind them, neither middleware answers the request under a
Brotli label of its own unless the client accepts that. -/
structure LabelsOnlyAccepted (request : Request) : Prop where
  static : ∀ files next returned, brotliStatic files request next = .ok returned →
    LabelledBrotli (next request) returned → request.headers.AcceptsCoding "br"
  compress : ∀ compress next returned, brotliCompress compress request next = .ok returned →
    LabelledBrotli (next request) returned → request.headers.AcceptsCoding "br"

theorem acceptsBrotli_of_brotliStatic {files : FileSystem} {request : Request} {next : Next}
    {returned : Response} (answered : brotliStatic files request next = .ok returned)
    (labelled : LabelledBrotli (next request) returned) :
    acceptsBrotli request.headers = true := by
  by_contra refuses
  rw [brotliStatic, if_pos (by simpa using refuses)] at answered
  exact labelled.1 (Except.ok.inj answered).symm

theorem acceptsBrotli_of_brotliCompress {compress : Bytes → Except String Bytes}
    {request : Request} {next : Next} {returned : Response}
    (answered : brotliCompress compress request next = .ok returned)
    (labelled : LabelledBrotli (next request) returned) :
    acceptsBrotli request.headers = true := by
  by_contra refuses
  rw [brotliCompress_of_passes fun compresses => refuses compresses.1] at answered
  exact labelled.1 (Except.ok.inj answered).symm

/-- A page is compressed for every client whose value has the two letters. -/
theorem brotliCompress_labels {request : Request}
    (letters : acceptsBrotli request.headers = true) :
    ∃ returned, brotliCompress storedBrotli request (smallPage []) = .ok returned ∧
      LabelledBrotli (smallPage [] request) returned := by
  have compresses : Compresses request (smallPage [] request) :=
    ⟨letters, (compresses_smallPage []).2⟩
  refine ⟨_, (brotliCompress_ok_iff compresses).mpr ⟨_, _, rfl, storedBrotli_smallBody, rfl⟩, ?_, ?_⟩
  · intro same
    have sameBody := congrArg Response.body same
    revert sameBody
    exact of_decide_eq_false rfl
  · rw [listed_contentEncoding_compressedResponse]
    exact List.mem_singleton_self _

theorem acceptsBrotli_iff (headers : HeaderMap) :
    acceptsBrotli headers = true ↔
      ∃ value, (headers.get "accept-encoding").bind toStr = some value ∧
        "br".toList <:+: value.toList := by
  unfold acceptsBrotli
  cases (headers.get "accept-encoding").bind toStr with
  | none => simp
  | some value => simp [containsText]

/-- **Brotli goes only to clients that accept it, exactly if** the first value,
where it is text that has the two letters at all, names the coding or a wildcard
with a weight, and never the coding without one. -/
theorem labelsOnlyAccepted_iff (request : Request) :
    LabelsOnlyAccepted request ↔
      ((∃ value, (request.headers.get "accept-encoding").bind toStr = some value ∧
          "br".toList <:+: value.toList) →
        (∀ named ∈ request.headers.preferences, named.coding = "br" → named.weight ≠ 0) ∧
          ((∃ named ∈ request.headers.preferences, named.coding = "br") ∨
            ∃ wildcard ∈ request.headers.preferences,
              wildcard.coding = "*" ∧ wildcard.weight ≠ 0)) := by
  rw [← acceptsBrotli_iff, ← HeaderMap.acceptsCoding_iff]
  constructor
  · intro labels letters
    obtain ⟨returned, answered, labelled⟩ := brotliCompress_labels letters
    exact labels.compress _ _ returned answered labelled
  · intro accepted
    exact
      ⟨fun _ _ _ answered labelled => accepted (acceptsBrotli_of_brotliStatic answered labelled),
        fun _ _ _ answered labelled => accepted (acceptsBrotli_of_brotliCompress answered labelled)⟩

/-- A client that excludes Brotli by its weight. -/
def refusingRequest : Request := ⟨"/", ⟨[("accept-encoding", "gzip, br;q=0")]⟩⟩

/-- A client that refuses Brotli gets it. -/
theorem labels_refused : ¬ ∀ request, LabelsOnlyAccepted request := by
  intro labels
  have letters : acceptsBrotli refusingRequest.headers = true := by decide +kernel
  have refused : ⟨"br", 0⟩ ∈ refusingRequest.headers.preferences := by decide +kernel
  have accepted := (labelsOnlyAccepted_iff refusingRequest).mp (labels refusingRequest)
    ((acceptsBrotli_iff _).mp letters)
  exact accepted.1 ⟨"br", 0⟩ refused rfl rfl

end RustySsr.Middleware
