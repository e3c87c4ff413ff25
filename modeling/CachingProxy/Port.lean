import CachingProxy.Destination

/-! The port of a connection. stoi takes it from the front of the text behind the first colon of
the Host field, and htons keeps 16 bits of it. -/
namespace CachingProxy
open Cpp Action

/-- p is a decimal numeral of a port number. -/
def NamesPort (p : Bytes) (port : Nat) : Prop := Http.number p = some port ∧ 1 ≤ port ∧ port ≤ 65535

/-- The answer to a request is an error response. -/
def AnsweredByError (w w' : World) : Prop :=
  ∃ status_code message accepted, w'.client.written =
    w.client.written ++ [(Source.own (error_response status_code message), accepted)]

/-- Nothing is dialled but the port that p names. Where it names none there is an error response. -/
structure PortKept (p : Bytes) (w w' : World) : Prop where
  right : ∃ tried, w'.dialled = w.dialled ++ tried ∧ ∀ d ∈ tried, NamesPort p d.2.toNat
  refused : (∀ port, ¬ NamesPort p port) → AnsweredByError w w'

/-- A request that is accepted with a Host value of this form. -/
structure HostPort (env : Environment) (request : Request) (h p : Bytes) : Prop where
  accepted : ∃ raw message, Request.parse env.put (Request.new raw) = .ok request ∧
    env.put raw = some message ∧ message.host = some (h ++ 58 :: p)
  filled : p ≠ []

/-- What makes the port right: p names one and is what stoi reads, or names the 16 bits that are
kept of the number before it, or there is no number, or nothing to connect to. -/
inductive PortSound (env : Environment) (request : Request) (route : Route) (h p : Bytes) : Prop where
  | named {port : Nat} (alone : (58 : UInt8) ∉ h) (numeral : NamesPort p port)
  | before {h₀ h₁ : Bytes} {n : Int} {port : Nat} (colon : h = h₀ ++ 58 :: h₁)
      (alone : (58 : UInt8) ∉ h₀) (numeral : NamesPort p port) (read : strtol h₁ = some n)
      (kept : n % 2 ^ 16 = port)
  | unread {e : Exception} (rejected : stoi (Request.portPart (h ++ 58 :: p)) = .error e)
  | unreached (never : ∀ address, ¬ Reaches env request route address)

/-! ## Numbers -/

theorem strtol_port {p : Bytes} {port : Nat} (numeral : NamesPort p port) :
    strtol p = some (port : Int) := by
  have read := Http.strtol_number numeral.1 (t := []) (by simp)
  rwa [List.append_nil] at read

theorem NamesPort.unique {p : Bytes} {port port' : Nat} (h : NamesPort p port)
    (h' : NamesPort p port') : port = port' := Option.some.inj (h.1.symm.trans h'.1)

/-- The number that stoi reads behind the first colon. -/
theorem port_read {h p : Bytes} (filled : p ≠ []) {n : Int32}
    (read : stoi (Request.portPart (h ++ 58 :: p)) = .ok n) :
    ((58 : UInt8) ∉ h ∧ strtol p = some n.toInt) ∨
      ∃ h₀ h₁, h = h₀ ++ 58 :: h₁ ∧ (58 : UInt8) ∉ h₀ ∧ strtol h₁ = some n.toInt := by
  have number := stoi_ok read
  rcases Request.colon_cases h with alone | ⟨h₀, h₁, rfl, alone⟩
  · rw [Request.portPart_colon alone, if_neg filled] at number
    exact Or.inl ⟨alone, number⟩
  · rw [List.append_assoc, List.cons_append, Request.portPart_colon alone, if_neg (by simp),
      strtol_append_solid (by decide) (by decide) (by decide)] at number
    exact Or.inr ⟨h₀, h₁, rfl, alone, number⟩

/-- Which of the numbers that are read the right port comes from. -/
theorem names_htons_iff {env : Environment} {request : Request} {route : Route} {h p : Bytes}
    (filled : p ≠ []) {n : Int32} {address : Address}
    (reaches : Reaches env request route address)
    (read : stoi (Request.portPart (h ++ 58 :: p)) = .ok n) :
    NamesPort p (htons n).toNat ↔ PortSound env request route h p := by
  constructor
  · intro numeral
    rcases port_read filled read with ⟨alone, -⟩ | ⟨h₀, h₁, rfl, alone, number⟩
    · exact .named alone numeral
    · exact .before rfl alone numeral number (htons_toNat n).symm
  · intro sound
    have kept {port : Nat} (numeral : NamesPort p port) (same : n.toInt % 2 ^ 16 = port) :
        NamesPort p (htons n).toNat := by
      rw [← htons_toNat] at same
      rwa [Int.ofNat.inj same]
    cases sound with
    | named alone numeral =>
      rcases port_read filled read with ⟨-, number⟩ | ⟨h₀, h₁, rfl, -, -⟩
      · apply kept numeral
        have same := Option.some.inj (number.symm.trans (strtol_port numeral))
        have range := numeral.2
        omega
      · simp at alone
    | before colon alone numeral number same =>
      rcases port_read filled read with ⟨whole, -⟩ | ⟨h₀, h₁, colon', alone', number'⟩
      · rw [colon] at whole
        simp at whole
      · obtain ⟨rfl, rfl⟩ := byte_split alone alone' (colon.symm.trans colon')
        cases Option.some.inj (number.symm.trans number')
        exact kept numeral same
    | unread rejected => cases read.symm.trans rejected
    | unreached never => exact absurd reaches (never address)

theorem HostPort.get_port {env : Environment} {request : Request} {h p : Bytes}
    (named : HostPort env request h p) :
    request.get_port = Request.portPart (h ++ 58 :: p) := by
  obtain ⟨raw, message, accepted, parsed, host⟩ := named.accepted
  obtain ⟨message', parsed', rfl⟩ := (Request.parse_eq_ok_iff _ _ _).mp accepted
  cases parsed.symm.trans parsed'
  rw [(Request.fill_host raw message).2, host]
  rfl

/-- Both functions dial the port that the Host value names, or else refuse, exactly where the
number that stoi reads is right or nothing can be dialled. -/
theorem port_kept_iff (env : Environment) (request : Request) (h p : Bytes) (route : Route)
    (w : World) (named : HostPort env request h p) :
    PortKept p w ((guarded (route.handler env request)).after w) ↔
      PortSound env request route h p := by
  have filled := named.filled
  rcases route_dials env request route w with ⟨n, address, dials, made⟩ | ⟨never, stops⟩
  · have read := dials.number
    rw [named.get_port] at read
    rw [← names_htons_iff filled dials.toReaches read]
    have dialled : ((guarded (route.handler env request)).after w).dialled =
        w.dialled ++ [(address, htons n)] := by
      rw [guarded_frame (unsent_dialled .client), made.dialled]
    constructor
    · rintro ⟨⟨tried, same, right⟩, -⟩
      obtain rfl := List.append_cancel_left (same.symm.trans dialled)
      exact right _ (List.mem_singleton_self _)
    · intro numeral
      refine ⟨⟨_, dialled, fun d mem => ?_⟩, fun nothing => absurd numeral (nothing _)⟩
      rw [List.mem_singleton.mp mem]
      exact numeral
  · obtain ⟨status_code, message, last⟩ := stops_guarded stops
    rw [last, sendErrorResponse_after]
    refine iff_of_true ⟨⟨[], (List.append_nil _).symm, by simp⟩, fun _ => ⟨_, _, _, rfl⟩⟩ ?_
    by_cases reaches : ∃ address, Reaches env request route address
    · obtain ⟨address, reaches⟩ := reaches
      cases read : stoi request.get_port with
      | ok n => exact absurd ⟨reaches, read⟩ (never n address)
      | error e => exact .unread (named.get_port ▸ read)
    · exact .unreached (not_exists.mp reaches)

/-! A tunnel to a port beyond 16 bits. -/

def farRequest : Segment :=
  ⟨bytes "CONNECT a:65616 HTTP/1.1\r\nHost: a:65616\r\n\r\n", by decide +kernel, by decide +kernel⟩

def farMessage : Message := ⟨bytes "CONNECT", bytes "a:65616", 11, some (bytes "a:65616"), []⟩

def far : Request := (Request.new farRequest.data).fill farMessage

def farEnvironment (iteration : Iteration) : Environment :=
  { plainEnvironment iteration with put := fun _ => some farMessage }

theorem far_port (iteration : Iteration) :
    HostPort (farEnvironment iteration) far (bytes "a") (bytes "65616") :=
  ⟨⟨farRequest.data, farMessage, rfl, rfl, rfl⟩, by decide⟩

theorem port_kept_iff_far : ∃ iteration : Iteration,
    PortKept (bytes "65616") (World.start (plainKernel []))
        ((guarded (Route.tunnel.handler (farEnvironment iteration) far)).after
          (World.start (plainKernel []))) ↔
      PortSound (farEnvironment iteration) far .tunnel (bytes "a") (bytes "65616") := by
  obtain ⟨iteration⟩ := nonempty_iteration
  exact ⟨iteration, port_kept_iff _ _ _ _ _ _ (far_port iteration)⟩

/-- Port 65616 is answered with a connection to port 80. -/
theorem not_always_kept : ¬ ∀ (env : Environment) (request : Request) (h p : Bytes) (route : Route)
    (w : World), HostPort env request h p →
    PortKept p w ((guarded (route.handler env request)).after w) := by
  intro all
  obtain ⟨iteration⟩ := nonempty_iteration
  have kept := all (farEnvironment iteration) far (bytes "a") (bytes "65616") .tunnel
    (World.start (plainKernel [])) (far_port iteration)
  obtain ⟨tried, same, right⟩ := kept.right
  rcases route_dials (farEnvironment iteration) far .tunnel (World.start (plainKernel [])) with
    ⟨n, address, -, made⟩ | ⟨never, -⟩
  · rw [guarded_frame (unsent_dialled .client), made.dialled] at same
    obtain rfl := List.append_cancel_left same
    have numeral := right _ (List.mem_singleton_self _)
    have number : Http.number (bytes "65616") = some 65616 := by decide
    have range := numeral.2.2
    rw [← Option.some.inj (number.symm.trans numeral.1)] at range
    exact absurd range (by decide)
  · exact never 65616 2130706433
      ⟨⟨fun e => (by cases e), ⟨3, rfl, fun e => (by cases e)⟩, rfl⟩, by decide +kernel⟩

end CachingProxy
