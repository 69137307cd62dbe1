import Mathlib.Data.List.Infix
import RustySsr.Http.Message

/-!
Owns the Brotli middleware of `src/middleware/brotli.rs`. The inner service, the
files and the compressor are parameters. Only what the middleware reads of a
request is kept: its headers and its path.
-/

namespace RustySsr.Middleware

open RustySsr.Http

structure Request where
  path : String
  headers : HeaderMap
deriving DecidableEq, Repr

/-- `Next::run`. -/
abbrev Next := Request → Response

/-- Files, as `Path::exists` and `fs::read` see them one after the other. -/
structure FileSystem where
  contains : String → Bool
  read : String → Except String Bytes

def internalServerError : Nat := 500

/-- `str::contains`. -/
def containsText (text pattern : String) : Bool := decide (pattern.toList <:+: text.toList)

/-- `str::ends_with`. -/
def endsWith (text suffix : String) : Bool := decide (suffix.toList <:+ text.toList)

/-- `accepts_brotli`. -/
def acceptsBrotli (headers : HeaderMap) : Bool :=
  match (headers.get "accept-encoding").bind toStr with
  | some value => containsText value "br"
  | none => false

/-- `guess_content_type`. -/
def guessContentType (path : String) : String :=
  if endsWith path ".js" then "application/javascript; charset=UTF-8"
  else if endsWith path ".css" then "text/css; charset=UTF-8"
  else if endsWith path ".html" then "text/html; charset=UTF-8"
  else if endsWith path ".json" then "application/json; charset=UTF-8"
  else if endsWith path ".svg" then "image/svg+xml"
  else if endsWith path ".woff2" then "font/woff2"
  else if endsWith path ".woff" then "font/woff"
  else "application/octet-stream"

/-- The response of `brotli_static` for the content of a file. -/
def staticResponse (path : String) (content : Bytes) : Response where
  status := 200
  headers := (((HeaderMap.empty.insert "content-type" (guessContentType path)).insert
    "content-encoding" "br").insert "vary" "Accept-Encoding").insert
    "cache-control" "public, max-age=31536000"
  body := .complete content

/-- `brotli_static`. -/
def brotliStatic (files : FileSystem) (request : Request) (next : Next) : Except Nat Response :=
  if acceptsBrotli request.headers = false then .ok (next request)
  else if containsText request.path ".." then .ok (next request)
  else
    let brPath := "." ++ request.path ++ ".br"
    if files.contains brPath = false then .ok (next request)
    else
      match files.read brPath with
      | .error _ => .ok (next request)
      | .ok content => .ok (staticResponse request.path content)

/-- The content type is read as text, and a missing one as the empty text. -/
def isHtml (headers : HeaderMap) : Bool :=
  containsText (((headers.get "content-type").bind toStr).getD "") "text/html"

/-- `axum::body::to_bytes` without a limit. -/
def toBytes : Body → Except String Bytes
  | .complete bytes => .ok bytes
  | .failing _ => .error "body stream failed"

/-- The response that `brotli_compress` makes of the inner one. -/
def compressedResponse (response : Response) (compressed : Bytes) : Response :=
  { response with
    headers := (response.headers.insert "content-encoding" "br").insert "vary" "Accept-Encoding"
    body := .complete compressed }

/-- `brotli_compress`. -/
def brotliCompress (compress : Bytes → Except String Bytes) (request : Request) (next : Next) :
    Except Nat Response :=
  let response := next request
  if acceptsBrotli request.headers = false then .ok response
  else if isHtml response.headers = false then .ok response
  else
    match toBytes response.body with
    | .error _ => .error internalServerError
    | .ok bodyBytes =>
        match compress bodyBytes with
        | .error _ => .error internalServerError
        | .ok compressed => .ok (compressedResponse response compressed)

end RustySsr.Middleware
