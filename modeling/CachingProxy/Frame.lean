import CachingProxy.Handler

/-! What the functions of a handler leave alone, for any part of the state. Each rule asks that
the part does not see the calls of the kernel that the function makes. -/
namespace CachingProxy
open Cpp Action

section Keeps

variable {γ : Type} {f : World → γ}

def Unsent (f : World → γ) (fd : Side) : Prop :=
  ∀ w source accepted left, f (World.sent w fd source accepted left) = f w

def Ungot (f : World → γ) (fd : Side) : Prop :=
  ∀ w data left, f (World.got w fd data left) = f w

theorem keeps_sendAll {fd : Side} (unsent : Unsent f fd) (source : Source) (data : Bytes) :
    Keeps f (sendAll fd source data) := by
  intro w
  unfold sendAll Action.after EStateM.run
  dsimp only
  cases (sendLoop data 0 (w.peer fd).sends).result <;> exact unsent w _ _ _

theorem keeps_recvd {fd : Side} (ungot : Ungot f fd) (outcome : RecvOutcome)
    (left : List RecvOutcome) : Keeps f (recvd fd outcome left) :=
  keeps_modify (fun w => ungot w _ _)

theorem keeps_recv {fd : Side} (ungot : Ungot f fd) : Keeps f (recv fd) := by
  unfold recv
  apply keeps_bind keeps_get
  intro w
  split
  · exact keeps_wait
  · exact keeps_bind (keeps_recvd ungot _ _) (fun _ => keeps_pure _)

theorem keeps_sendErrorResponse (unsent : Unsent f .client) (status_code : Nat) (message : Bytes) :
    Keeps f (sendErrorResponse status_code message) :=
  keeps_bind (keeps_sendAll unsent _ _) (fun _ => keeps_pure _)

/-- An error response followed by return false. -/
theorem keeps_refuse (unsent : Unsent f .client) (status_code : Nat) (message : Bytes) :
    Keeps f (do sendErrorResponse status_code message; return false : Handling Bool) :=
  keeps_bind (keeps_sendErrorResponse unsent _ _) (fun _ => keeps_pure _)

theorem keeps_connect (undialled : ∀ w d, f { w with dialled := d } = f w) (network : Network)
    (host : Bytes) (port : Int32) : Keeps f (TcpSocket.connect network host port) := by
  unfold TcpSocket.connect
  split
  · exact keeps_pure _
  · exact keeps_bind (keeps_modify (fun w => undialled w _)) (fun _ => keeps_pure _)

theorem keeps_headerLoop (ungot : Ungot f .server) (response_str : Bytes)
    (recvs : List RecvOutcome) : Keeps f (headerLoop response_str recvs) := by
  induction recvs generalizing response_str with
  | nil => exact keeps_wait
  | cons outcome left ih =>
    unfold headerLoop
    apply keeps_bind (keeps_recvd ungot _ _)
    intro _
    cases outcome with
    | data segment => exact keeps_ite (keeps_pure _) (ih _)
    | closed => exact keeps_pure _
    | failed errno => exact keeps_pure _

theorem keeps_bodyLoop (ungot : Ungot f .server) (unsent : Unsent f .client) (framing : Framing)
    (is_cacheable : Bool) (response_buffer : Bytes) (body_received : Nat)
    (recvs : List RecvOutcome) :
    Keeps f (bodyLoop framing is_cacheable response_buffer body_received recvs) := by
  induction recvs generalizing response_buffer body_received with
  | nil => exact keeps_wait
  | cons outcome left ih =>
    unfold bodyLoop
    apply keeps_bind (keeps_recvd ungot _ _)
    intro _
    cases outcome with
    | data segment =>
      apply keeps_bind (keeps_sendAll unsent _ _)
      intro ok
      apply keeps_ite (keeps_pure _)
      exact keeps_ite (keeps_pure _) (ih _ _)
    | closed => exact keeps_pure _
    | failed errno => exact keeps_pure _

theorem keeps_store (unstored : ∀ w p, f { w with puts := p } = f w) (env : Environment)
    (request : Request) (response_str response_line response_buffer : Bytes) :
    Keeps f (store env request response_str response_line response_buffer) := by
  unfold store
  split
  · exact keeps_pure _
  · exact keeps_ite (keeps_pure _) (keeps_modify (fun w => unstored w _))

/-- Nothing but the answer of the origin and what is sent to the client. -/
theorem keeps_relayBody (ungot : Ungot f .server) (unsent : Unsent f .client)
    (unstored : ∀ w p, f { w with puts := p } = f w) (env : Environment) (request : Request)
    (response_str : Bytes) : Keeps f (relayBody env request response_str) := by
  unfold relayBody
  apply keeps_bind (keeps_ofExcept _)
  intro framing
  apply keeps_bind keeps_get
  intro w
  apply keeps_bind (keeps_bodyLoop ungot unsent _ _ _ _ _)
  intro read
  cases read with
  | none => exact keeps_pure _
  | some response_buffer =>
    exact keeps_ite (keeps_bind (keeps_store unstored _ _ _ _ _) (fun _ => keeps_pure _))
      (keeps_bind (keeps_pure _) (fun _ => keeps_pure _))

theorem keeps_contactOrigin (unsent : ∀ fd, Unsent f fd)
    (undialled : ∀ w d, f { w with dialled := d } = f w) (env : Environment) (request : Request) :
    Keeps f (contactOrigin env request) := by
  unfold contactOrigin
  apply keeps_ite (keeps_refuse (unsent .client) _ _)
  apply keeps_bind (keeps_ofExcept _)
  intro server_fd
  apply keeps_ite (keeps_refuse (unsent .client) _ _)
  apply keeps_bind (keeps_ofExcept _)
  intro port
  apply keeps_bind (keeps_connect undialled _ _ _)
  intro connected
  apply keeps_ite (keeps_refuse (unsent .client) _ _)
  apply keeps_bind (keeps_sendAll (unsent .server) _ _)
  intro asked
  exact keeps_ite (keeps_refuse (unsent .client) _ _) (keeps_pure _)

theorem keeps_serve (unsent : Unsent f .client) (env : Environment) (cached_entry : CacheEntry) :
    Keeps f (serve env cached_entry) := by
  unfold serve
  apply keeps_bind (keeps_sendAll unsent _ _)
  intro ok
  apply keeps_ite (keeps_pure _)
  apply keeps_ite
  · apply keeps_bind (keeps_sendAll unsent _ _)
    intro ok
    exact keeps_ite (keeps_pure _) (keeps_pure _)
  · exact keeps_pure _

theorem keeps_tunnelStep {src dst : Side} (ungot : Ungot f src) (unsent : Unsent f dst) :
    Keeps f (tunnelStep src dst) := by
  unfold tunnelStep
  apply keeps_bind (keeps_recv ungot)
  intro outcome
  split
  · exact keeps_bind (keeps_sendAll unsent _ _) (fun _ => keeps_pure _)
  · exact keeps_pure _

theorem keeps_tunnelLoop (ungot : ∀ fd, Ungot f fd) (unsent : ∀ fd, Unsent f fd)
    (unpolled : ∀ w p, f { w with polls := p } = f w) (client_closed server_closed : Bool)
    (polls : List Poll) : Keeps f (tunnelLoop client_closed server_closed polls) := by
  induction polls generalizing client_closed server_closed with
  | nil =>
    unfold tunnelLoop
    exact keeps_ite (keeps_pure _) keeps_wait
  | cons poll polls ih =>
    unfold tunnelLoop
    dsimp only
    apply keeps_ite (keeps_pure _)
    refine keeps_bind (keeps_modify (fun w => unpolled w _)) (fun _ => ?_)
    cases poll with
    | failed => exact keeps_pure _
    | timeout => exact ih false false
    | ready client server =>
      have turn (src dst : Side) {p : Prop} [Decidable p] {next : Bool × Bool → Handling Bool}
          (rest : ∀ r, Keeps f (next r)) :
          Keeps f (if p then tunnelStep src dst >>= next else pure (false, false) >>= next) :=
        keeps_ite (keeps_bind (keeps_tunnelStep (ungot src) (unsent dst)) rest)
          (keeps_bind (keeps_pure _) rest)
      apply turn
      intro r
      apply turn
      intro r'
      exact keeps_ite (keeps_pure _) (ih _ _)

theorem keeps_tunnelTraffic (ungot : ∀ fd, Ungot f fd) (unsent : ∀ fd, Unsent f fd)
    (unpolled : ∀ w p, f { w with polls := p } = f w) : Keeps f tunnelTraffic :=
  keeps_bind keeps_get (fun w => keeps_tunnelLoop ungot unsent unpolled false false w.polls)

theorem keeps_processConnectRequest (ungot : ∀ fd, Ungot f fd) (unsent : ∀ fd, Unsent f fd)
    (unpolled : ∀ w p, f { w with polls := p } = f w)
    (undialled : ∀ w d, f { w with dialled := d } = f w) (env : Environment) (request : Request) :
    Keeps f (processConnectRequest env request) := by
  unfold processConnectRequest
  apply keeps_bind (keeps_ofExcept _)
  intro _
  apply keeps_bind (keeps_ofExcept _)
  intro port
  apply keeps_bind (keeps_connect undialled _ _ _)
  intro connected
  apply keeps_ite (keeps_refuse (unsent .client) _ _)
  apply keeps_bind (keeps_sendAll (unsent .client) _ _)
  intro ok
  exact keeps_ite (keeps_pure _) (keeps_tunnelTraffic ungot unsent unpolled)

/-- What the catch-all sends is all that it adds. -/
theorem guarded_frame (unsent : Unsent f .client) (x : Handling Bool) (w : World) :
    f ((guarded x).after w) = f (x.after w) :=
  (keeps_catching w (fun _ => keeps_sendErrorResponse unsent _ _)).trans
    (after_bind_of_keeps (fun _ => keeps_pure _) w)

/-- After the origin is asked only its answer is still to come, and what becomes of it. -/
theorem forwardRequest_frame (ungot : Ungot f .server) (unsent : Unsent f .client)
    (unstored : ∀ w p, f { w with puts := p } = f w) (env : Environment) (request : Request)
    (w : World) :
    f ((forwardRequest env request).after w) = f ((contactOrigin env request).after w) := by
  apply after_bind_of_keeps
  intro asked
  apply keeps_ite (keeps_pure _)
  apply keeps_bind keeps_get
  intro w
  apply keeps_bind (keeps_headerLoop ungot _ _)
  intro response_str
  apply keeps_ite (keeps_refuse unsent _ _)
  apply keeps_bind (keeps_sendAll unsent _ _)
  intro ok
  exact keeps_ite (keeps_pure _) (keeps_relayBody ungot unsent unstored _ _ _)

end Keeps

end CachingProxy
