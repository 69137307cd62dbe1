import RustySsr.Middleware.Brotli

/-!
Owns what `brotli_compress` does to the meaning of a response. It compresses a
body under whatever codings it already has, keeps a declared length, and
replaces the inner `Vary`. `coherent_iff` states when none of this matters.
-/

namespace RustySsr.Middleware

open RustySsr.Http

section Coherence

variable {compress : Bytes → Except String Bytes} {decode : String → Bytes → Option Bytes}

/-- Decoding a Brotli-encoded body gives the body back. -/
def RoundTrips (compress : Bytes → Except String Bytes)
    (decode : String → Bytes → Option Bytes) : Prop :=
  ∀ bytes compressed, compress bytes = .ok compressed → decode "br" compressed = some bytes

/-- The middleware compresses this response. -/
def Compresses (request : Request) (response : Response) : Prop :=
  acceptsBrotli request.headers = true ∧ isHtml response.headers = true

/-- Compressing the response changes nothing that it means: its codings leave
its body as it is, it declares no length but that of the compressed body, and
it varies by nothing but the accepted codings. -/
def Compressible (compress : Bytes → Except String Bytes) (decode : String → Bytes → Option Bytes)
    (response : Response) : Prop :=
  ∀ bytes compressed, response.body = .complete bytes → compress bytes = .ok compressed →
    (∀ representation, undo decode (response.headers.listed "content-encoding") bytes =
      some representation → representation = bytes) ∧
    (∀ value ∈ response.headers.values "content-length",
      decimal value = some compressed.length) ∧
    ∀ field ∈ response.headers.listed "vary", field = "accept-encoding"

theorem brotliCompress_of_passes {request : Request} {next : Next}
    (passes : ¬ Compresses request (next request)) :
    brotliCompress compress request next = .ok (next request) := by
  unfold brotliCompress
  by_cases accepts : acceptsBrotli request.headers = true
  · have other : isHtml (next request).headers = false := by
      by_contra html
      exact passes ⟨accepts, by simpa using html⟩
    rw [if_neg (by simp [accepts]), if_pos other]
  · rw [if_pos (by simpa using accepts)]

/-- Where it compresses, the middleware answers exactly if the body can be read
and compressed. -/
theorem brotliCompress_ok_iff {request : Request} {next : Next} {returned : Response}
    (compresses : Compresses request (next request)) :
    brotliCompress compress request next = .ok returned ↔
      ∃ bytes compressed, (next request).body = .complete bytes ∧
        compress bytes = .ok compressed ∧
          compressedResponse (next request) compressed = returned := by
  obtain ⟨accepts, html⟩ := compresses
  unfold brotliCompress
  rw [if_neg (by simp [accepts]), if_neg (by simp [html])]
  cases body : (next request).body with
  | failing bytes => simp [toBytes]
  | complete bytes =>
      cases encoded : compress bytes with
      | error message => simp [toBytes, encoded]
      | ok compressed => simp [toBytes, encoded]

theorem listed_vary_compressedResponse (response : Response) (compressed : Bytes) :
    (compressedResponse response compressed).headers.listed "vary" = ["accept-encoding"] := by
  simp only [compressedResponse, HeaderMap.listed, HeaderMap.values_insert_self]
  decide

theorem listed_contentEncoding_compressedResponse (response : Response) (compressed : Bytes) :
    (compressedResponse response compressed).headers.listed "content-encoding" = ["br"] := by
  have other : "content-encoding" ≠ "vary" := by decide
  simp only [compressedResponse, HeaderMap.listed, HeaderMap.values_insert_of_ne other,
    HeaderMap.values_insert_self]
  decide

theorem contentLength_compressedResponse (response : Response) (compressed : Bytes) :
    (compressedResponse response compressed).headers.values "content-length" =
      response.headers.values "content-length" := by
  rw [compressedResponse, HeaderMap.values_insert_of_ne (by decide),
    HeaderMap.values_insert_of_ne (by decide)]

/-- What compressing a response that can be read does to its meaning. -/
theorem coherent_compressedResponse_iff (roundTrips : RoundTrips compress decode)
    {response : Response} {bytes compressed : Bytes} (read : response.body = .complete bytes)
    (encoded : compress bytes = .ok compressed) :
    Coherent decode response (compressedResponse response compressed) ↔
      (∀ representation, undo decode (response.headers.listed "content-encoding") bytes =
        some representation → representation = bytes) ∧
      (∀ value ∈ response.headers.values "content-length",
        decimal value = some compressed.length) ∧
      ∀ field ∈ response.headers.listed "vary", field = "accept-encoding" := by
  have decoded := roundTrips bytes compressed encoded
  have codings := listed_contentEncoding_compressedResponse response compressed
  constructor
  · intro coherent
    refine ⟨fun representation undone => ?_, fun value declared => ?_, fun field listed => ?_⟩
    · obtain ⟨coded, body, again⟩ := coherent.representation representation ⟨bytes, read, undone⟩
      obtain rfl := Body.complete.inj body
      rw [codings, undo_singleton, decoded] at again
      exact (Option.some.inj again).symm
    · rw [← contentLength_compressedResponse response compressed] at declared
      exact coherent.length compressed rfl value declared
    · have kept := coherent.vary field listed
      rw [listed_vary_compressedResponse] at kept
      exact List.mem_singleton.mp kept
  · rintro ⟨plain, lengths, varies⟩
    refine ⟨?_, ?_, ?_⟩
    · rintro representation ⟨coded, body, undone⟩
      obtain rfl := Body.complete.inj (read.symm.trans body)
      obtain rfl := plain representation undone
      exact ⟨compressed, rfl, by rw [codings, undo_singleton, decoded]⟩
    · intro returned body value declared
      obtain rfl := Body.complete.inj body
      rw [contentLength_compressedResponse] at declared
      exact lengths value declared
    · intro field listed
      rw [listed_vary_compressedResponse, varies field listed]
      exact List.mem_singleton_self _

/-- A page that `brotli_static` has read from its file is compressed once more,
under a label that names one coding: the client gets the file, not the page. -/
theorem coherent_static_iff (roundTrips : RoundTrips compress decode) (path : String)
    {content page compressed : Bytes} (coded : decode "br" content = some page)
    (encoded : compress content = .ok compressed) :
    Coherent decode (staticResponse path content)
      (compressedResponse (staticResponse path content) compressed) ↔ page = content := by
  have codings : (staticResponse path content).headers.listed "content-encoding" = ["br"] := by
    have afterVary : "content-encoding" ≠ "vary" := by decide
    have afterCache : "content-encoding" ≠ "cache-control" := by decide
    rw [staticResponse, HeaderMap.listed, HeaderMap.values_insert_of_ne afterCache,
      HeaderMap.values_insert_of_ne afterVary, HeaderMap.values_insert_self]
    decide
  have lengths : (staticResponse path content).headers.values "content-length" = [] := by
    simp [staticResponse, HeaderMap.values, HeaderMap.insert, HeaderMap.empty]
  have varies : (staticResponse path content).headers.listed "vary" = ["accept-encoding"] := by
    have afterCache : "vary" ≠ "cache-control" := by decide
    rw [staticResponse, HeaderMap.listed, HeaderMap.values_insert_of_ne afterCache,
      HeaderMap.values_insert_self]
    decide
  rw [coherent_compressedResponse_iff roundTrips rfl encoded, codings, lengths, varies,
    undo_singleton, coded]
  simp

/-- **The returned response means what the inner one did, exactly if** it passes
unchanged with a right length of its own, or compressing it changes nothing that
it means. -/
theorem coherent_iff (roundTrips : RoundTrips compress decode) (request : Request) (next : Next) :
    (∀ returned, brotliCompress compress request next = .ok returned →
        Coherent decode (next request) returned) ↔
      (¬ Compresses request (next request) → (next request).LengthAgrees) ∧
        (Compresses request (next request) → Compressible compress decode (next request)) := by
  by_cases compresses : Compresses request (next request)
  · simp only [compresses, not_true_eq_false, false_implies, true_implies, true_and]
    constructor
    · intro coherent bytes compressed read encoded
      have returned :=
        (brotliCompress_ok_iff compresses).mpr ⟨bytes, compressed, read, encoded, rfl⟩
      exact (coherent_compressedResponse_iff roundTrips read encoded).mp (coherent _ returned)
    · intro compressible returned answered
      obtain ⟨bytes, compressed, read, encoded, rfl⟩ :=
        (brotliCompress_ok_iff compresses).mp answered
      exact (coherent_compressedResponse_iff roundTrips read encoded).mpr
        (compressible bytes compressed read encoded)
  · simp only [compresses, not_false_eq_true, true_implies, false_implies, and_true]
    rw [brotliCompress_of_passes compresses]
    constructor
    · intro coherent
      exact (coherent_self_iff decode _).mp (coherent _ rfl)
    · intro agrees returned answered
      obtain rfl := Except.ok.inj answered
      exact (coherent_self_iff decode _).mpr agrees

end Coherence

/-! ### A codec that stores -/

/-- A Brotli stream with one stored block of at most 65536 bytes: the window, the
length less one and the mark of a stored block in three bytes, and an empty last
block at the end. -/
def storedBrotli (bytes : Bytes) : Except String Bytes :=
  let less := bytes.length - 1
  if bytes = [] then .ok [0x06]
  else if less < 65536 then
    .ok (UInt8.ofNat (0x0b + 0x80 * (less % 2)) :: UInt8.ofNat (less / 2) ::
      UInt8.ofNat (0x80 + less / 512) :: (bytes ++ [0x03]))
  else .error "more than one block"

/-- The bytes of the one stored block, if the stream is of that form. -/
def readStored (coding : String) (coded : Bytes) : Option Bytes :=
  if coding ≠ "br" then none
  else
    match coded with
    | first :: second :: third :: rest =>
        let length := first.toNat / 0x80 + 2 * second.toNat + 512 * (third.toNat % 0x80) + 1
        if first.toNat % 0x80 = 0x0b ∧ 0x80 ≤ third.toNat ∧
            rest = rest.take length ++ [0x03] then
          some (rest.take length)
        else none
    | _ => if coded = [0x06] then some [] else none

/-- The three bytes in front of a block say that it is stored and how long it is. -/
theorem header_storedBrotli {less : Nat} (fits : less < 65536) :
    (UInt8.ofNat (0x0b + 0x80 * (less % 2))).toNat % 0x80 = 0x0b ∧
      0x80 ≤ (UInt8.ofNat (0x80 + less / 512)).toNat ∧
        (UInt8.ofNat (0x0b + 0x80 * (less % 2))).toNat / 0x80 +
          2 * (UInt8.ofNat (less / 2)).toNat +
            512 * ((UInt8.ofNat (0x80 + less / 512)).toNat % 0x80) = less := by
  simp only [UInt8.toNat_ofNat']
  omega

theorem readStored_storedBrotli : RoundTrips storedBrotli readStored := by
  intro bytes compressed encoded
  unfold storedBrotli at encoded
  dsimp only at encoded
  split_ifs at encoded with empty fits
  · obtain rfl := Except.ok.inj encoded
    rw [empty]
    rfl
  · obtain rfl := Except.ok.inj encoded
    obtain ⟨window, stored, lengthEq⟩ := header_storedBrotli fits
    have whole : bytes.length - 1 + 1 = bytes.length :=
      Nat.sub_add_cancel (List.length_pos_iff.mpr empty)
    have block : (bytes ++ [(0x03 : UInt8)]).take bytes.length = bytes := List.take_left
    rw [readStored, if_neg (not_not.mpr rfl)]
    dsimp only
    rw [lengthEq, whole, block]
    exact if_pos ⟨window, stored, rfl⟩

/-- The request of a browser. -/
def browserRequest : Request := ⟨"/", ⟨[("accept-encoding", "gzip, deflate, br")]⟩⟩

/-- An HTML page of 13 bytes. -/
def smallBody : Bytes := [60, 104, 116, 109, 108, 62, 60, 47, 104, 116, 109, 108, 62]

theorem storedBrotli_smallBody :
    storedBrotli smallBody = .ok (0x0b :: 0x06 :: 0x80 :: (smallBody ++ [0x03])) := rfl

/-- A service that answers with the page and the given further fields. -/
def smallPage (fields : List (String × String)) : Next := fun _ =>
  { status := 200
    headers := ⟨("content-type", "text/html; charset=utf-8") :: fields⟩
    body := .complete smallBody }

theorem compresses_smallPage (fields : List (String × String)) :
    Compresses browserRequest (smallPage fields browserRequest) := by
  have accepts : acceptsBrotli browserRequest.headers = true := by decide +kernel
  have html : containsText "text/html; charset=utf-8" "text/html" = true := by decide +kernel
  have text : toStr "text/html; charset=utf-8" = some "text/html; charset=utf-8" := by
    decide +kernel
  refine ⟨accepts, ?_⟩
  simp only [isHtml, smallPage, HeaderMap.get, HeaderMap.values, List.filter_cons_of_pos,
    decide_true, List.map_cons, List.head?_cons, Option.bind_some, text, Option.getD_some, html]

/-- A page that varies by the accepted codings alone, without codings and lengths
of its own, keeps its meaning. -/
theorem coherent_varyingPage :
    ∃ returned,
      brotliCompress storedBrotli browserRequest (smallPage [("vary", "Accept-Encoding")]) =
        .ok returned ∧
      Coherent readStored (smallPage [("vary", "Accept-Encoding")] browserRequest) returned := by
  set page : Next := smallPage [("vary", "Accept-Encoding")]
  have noCodings : (page browserRequest).headers.listed "content-encoding" = [] := by decide
  have noLength : (page browserRequest).headers.values "content-length" = [] := by decide
  have varies : (page browserRequest).headers.listed "vary" = ["accept-encoding"] := by
    decide +kernel
  have answered := (brotliCompress_ok_iff (compresses_smallPage [("vary", "Accept-Encoding")])).mpr
    ⟨_, _, rfl, storedBrotli_smallBody, rfl⟩
  refine ⟨_, answered, (coherent_iff readStored_storedBrotli browserRequest page).mpr
    ⟨fun passes => absurd (compresses_smallPage _) passes, fun _ bytes compressed _ _ => ?_⟩ _
      answered⟩
  rw [noCodings, noLength, varies]
  exact ⟨fun _ same => (Option.some.inj same).symm, List.forall_mem_nil _,
    fun _ listed => List.mem_singleton.mp listed⟩

/-- A page that declares its length still declares it for the longer body that
it is given. -/
theorem keeps_stale_length :
    ¬ ∀ compress decode, RoundTrips compress decode → ∀ request next returned,
      brotliCompress compress request next = .ok returned →
        Coherent decode (next request) returned := by
  intro coherent
  have answered := (brotliCompress_ok_iff (compresses_smallPage [("content-length", "13")])).mpr
    ⟨_, _, rfl, storedBrotli_smallBody, rfl⟩
  have kept := (coherent _ _ readStored_storedBrotli _ _ _ answered).length _ rfl "13" (by decide)
  revert kept
  decide +kernel

end RustySsr.Middleware
