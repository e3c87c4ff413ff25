import CachingProxy.Cpp.Number

/-! Request::parse. The parsing itself is Boost.Beast's; what the proxy does with the parsed
message is here, above all with the value of the Host field. -/
namespace CachingProxy
open Cpp

/-- What the proxy asks of a parsed http::request; `host` is the Host field if there is one. -/
structure Message where
  method_string : Bytes
  target : Bytes
  version : Nat
  host : Option Bytes
  body : Bytes
  deriving DecidableEq

/-- put of a request_parser that is given all bytes at once; none when it sets its error code. -/
abbrev Parser := Bytes → Option Message

structure Request where
  request : Bytes
  line : Bytes
  body : Bytes
  method : Bytes
  uri : Bytes
  port : Bytes
  hostname : Bytes
  deriving DecidableEq

namespace Request

def InvalidRequest : Exception := .other "Invalid request"

/-- The constructor from a raw request. -/
def new (request : Bytes) : Request where
  request := request
  line := match find (bytes "\r\n") request with
    | some pos => request.take pos
    | none => []
  body := []
  method := []
  uri := []
  port := []
  hostname := []

/-- to_string -/
def to_string (n : Nat) : Bytes := bytes (toString n)

/-- The fields of a parsed message; the port is whatever follows the first colon of Host. -/
def fill (r : Request) (req : Message) : Request :=
  let hostname := req.host.getD r.hostname
  let colon_pos := find (bytes ":") hostname
  { r with
    method := req.method_string
    uri := req.target
    line := req.method_string ++ bytes " " ++ req.target ++ bytes " HTTP/" ++
      to_string (req.version / 10) ++ bytes "." ++ to_string (req.version % 10)
    port := match colon_pos with
      | some pos => hostname.drop (pos + 1)
      | none => bytes "80"
    hostname := match colon_pos with
      | some pos => hostname.take pos
      | none => hostname
    body := req.body }

def parse (put : Parser) (r : Request) : Except Exception Request :=
  match put r.request with
  | none => .error InvalidRequest
  | some req => .ok (r.fill req)

def get_port (r : Request) : Bytes := if r.port = [] then bytes "80" else r.port

/-- hostname + uri, the key of the cache. -/
def url (r : Request) : Bytes := r.hostname ++ r.uri

theorem parse_of_none {put : Parser} {r : Request} (refused : put r.request = none) :
    parse put r = .error InvalidRequest := by
  unfold parse
  rw [refused]

theorem parse_eq_ok_iff (put : Parser) (raw : Bytes) (r : Request) :
    parse put (new raw) = .ok r ↔ ∃ req, put raw = some req ∧ r = (new raw).fill req := by
  unfold parse
  cases h : put (new raw).request with
  | none =>
    constructor
    · intro e
      cases e
    · rintro ⟨req, hreq, -⟩
      cases h.symm.trans hreq
  | some req =>
    constructor
    · intro e
      exact ⟨req, h, (Except.ok.inj e).symm⟩
    · rintro ⟨req', hreq, rfl⟩
      cases h.symm.trans hreq
      rfl

/-! The two sides of the first colon. -/

def hostPart (host : Bytes) : Bytes := host.takeWhile (fun c => c != 58)

/-- The port of a Host value, 80 when it names none. -/
def portPart (host : Bytes) : Bytes :=
  match host.dropWhile (fun c => c != 58) with
  | [] => bytes "80"
  | _ :: [] => bytes "80"
  | _ :: port => port

/-- A Host value has no colon, or a first one. -/
theorem colon_cases (s : Bytes) : (58 : UInt8) ∉ s ∨
    ∃ h p, s = h ++ 58 :: p ∧ (58 : UInt8) ∉ h := by
  by_cases colon : (58 : UInt8) ∈ s
  · right
    obtain ⟨h, p, rfl, clean⟩ := List.eq_append_cons_of_mem colon
    exact ⟨h, p, rfl, clean⟩
  · exact Or.inl colon

theorem hostPart_alone {s : Bytes} (h : (58 : UInt8) ∉ s) : hostPart s = s := by
  simp only [hostPart, List.takeWhile_eq_self_iff, bne_iff_ne]
  intro c hc e
  exact h (e ▸ hc)

theorem hostPart_colon {h : Bytes} (clean : (58 : UInt8) ∉ h) (p : Bytes) :
    hostPart (h ++ 58 :: p) = h := by
  have pos : ∀ c ∈ h, (c != 58) = true := by
    intro c hc
    simp only [bne_iff_ne]
    exact fun e => clean (e ▸ hc)
  simp [hostPart, List.takeWhile_append_of_pos pos]

theorem portPart_alone {s : Bytes} (h : (58 : UInt8) ∉ s) : portPart s = bytes "80" := by
  have none_left : s.dropWhile (fun c => c != 58) = [] := by
    simp only [List.dropWhile_eq_nil_iff, bne_iff_ne]
    intro c hc e
    exact h (e ▸ hc)
  simp only [portPart, none_left]

theorem portPart_colon {h : Bytes} (clean : (58 : UInt8) ∉ h) (p : Bytes) :
    portPart (h ++ 58 :: p) = if p = [] then bytes "80" else p := by
  have pos : ∀ c ∈ h, (c != 58) = true := by
    intro c hc
    simp only [bne_iff_ne]
    exact fun e => clean (e ▸ hc)
  have left : (h ++ 58 :: p).dropWhile (fun c => c != 58) = 58 :: p := by
    simp [List.dropWhile_append_of_pos pos]
  simp only [portPart, left]
  cases p <;> rfl

/-- What Request::parse makes of a Host value. -/
theorem fill_host (raw : Bytes) (req : Message) :
    ((new raw).fill req).hostname = hostPart (req.host.getD []) ∧
      ((new raw).fill req).get_port = portPart (req.host.getD []) := by
  have start : (new raw).hostname = [] := rfl
  generalize hs : req.host.getD [] = s
  rcases colon_cases s with hmem | ⟨h, p, rfl, hmem⟩
  · have hnone : find (bytes ":") s = none := find_byte_none hmem
    simp only [fill, get_port, start, hs, hnone, hostPart_alone hmem, portPart_alone hmem]
    exact ⟨trivial, rfl⟩
  · have hfind : find (bytes ":") (h ++ 58 :: p) = some h.length := find_byte hmem p
    simp only [fill, get_port, start, hs, hfind, hostPart_colon hmem, portPart_colon hmem]
    simp

@[simp] theorem fill_uri (r : Request) (req : Message) : (r.fill req).uri = req.target := rfl

theorem fill_url (raw : Bytes) (req : Message) :
    ((new raw).fill req).url = hostPart (req.host.getD []) ++ req.target := by
  simp only [url, (fill_host raw req).1, fill_uri]

end Request

end CachingProxy
