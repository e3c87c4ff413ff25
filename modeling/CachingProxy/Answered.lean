import CachingProxy.Handler

/-! How many answers of the kernel a handler needs in order to return. A send takes one byte at least
unless it fails or is interrupted, a recv or a poll takes one answer. -/
namespace CachingProxy
open Cpp Action

instance (outcome : SendOutcome) : Decidable outcome.Interrupted :=
  inferInstanceAs (Decidable (outcome.sent ≤ 0 ∧ outcome.errno = .EINTR))

/-- How many sends are not interrupted. -/
def willing (sends : List SendOutcome) : Nat :=
  sends.countP (fun outcome => ¬ outcome.Interrupted)

/-- How many bytes will be received. -/
def volume (recvs : List RecvOutcome) : Nat :=
  (recvs.map (fun outcome => outcome.bytes.length)).sum

/-- How many times recv will find the stream at its end, or broken. -/
def endings (recvs : List RecvOutcome) : Nat := recvs.countP (fun outcome => outcome.bytes = [])

theorem volume_cons (outcome : RecvOutcome) (left : List RecvOutcome) :
    volume (outcome :: left) = outcome.bytes.length + volume left := rfl

theorem volume_ended {outcome : RecvOutcome} (ended : outcome.bytes = []) (left : List RecvOutcome) :
    volume (outcome :: left) = volume left := by
  rw [volume_cons, ended, List.length_nil, Nat.zero_add]

theorem endings_data (segment : Segment) (left : List RecvOutcome) :
    endings (.data segment :: left) = endings left := by
  refine List.countP_cons_of_neg ?_
  rw [decide_eq_true_eq]
  exact segment.some_bytes

theorem endings_ended {outcome : RecvOutcome} (ended : outcome.bytes = []) (left : List RecvOutcome) :
    endings (outcome :: left) = endings left + 1 := by
  refine List.countP_cons_of_pos ?_
  rw [decide_eq_true_eq]
  exact ended

/-- Room for the longest error response. -/
def reserve : Nat := (error_response 500 (bytes "Internal Server Error")).length

/-- A function returns, or throws while an error response can still be sent. -/
def returning {α : Type} : Post World α :=
  ⟨fun _ _ => True, fun _ w => reserve ≤ willing w.client.sends, fun _ => False⟩

/-! ## Sending -/

/-- A send takes one byte at least, or fails, or is interrupted. -/
theorem sendLoop_willing (data : Bytes) (total_sent : Nat) (sends : List SendOutcome)
    (enough : data.length - total_sent ≤ willing sends) :
    ∃ ok, (sendLoop data total_sent sends).result = some ok ∧
      willing sends ≤ willing (sendLoop data total_sent sends).sends +
        (data.length - total_sent) := by
  induction sends generalizing total_sent with
  | nil =>
    rw [sendLoop_done (Nat.le_of_sub_eq_zero (Nat.le_zero.mp enough))]
    exact ⟨true, rfl, Nat.le_add_right _ _⟩
  | cons outcome sends ih =>
    rcases Nat.lt_or_ge total_sent data.length with more | done
    · rcases send_cases outcome (data.length - total_sent) with
        ⟨unsent, again⟩ | ⟨unsent, failed⟩ | ⟨m, some_bytes, fits, took⟩
      · have interrupted : outcome.Interrupted := ⟨by omega, again⟩
        have same : willing (outcome :: sends) = willing sends :=
          List.countP_cons_of_neg (by simpa using interrupted)
        rw [sendLoop_again more unsent again, same]
        rw [same] at enough
        exact ih total_sent enough
      · have counts : ¬ outcome.Interrupted := fun interrupted => failed interrupted.2
        have one : willing (outcome :: sends) = willing sends + 1 :=
          List.countP_cons_of_pos (by simpa using counts)
        rw [sendLoop_failed more unsent failed, one]
        exact ⟨false, rfl, by dsimp only; omega⟩
      · have counts : ¬ outcome.Interrupted := fun interrupted => by
          have := interrupted.1
          omega
        have one : willing (outcome :: sends) = willing sends + 1 :=
          List.countP_cons_of_pos (by simpa using counts)
        rw [one] at enough
        obtain ⟨ok, result, left⟩ := ih (total_sent + m) (by omega)
        rw [sendLoop_took more some_bytes took, one]
        exact ⟨ok, result, by dsimp only; omega⟩
    · rw [sendLoop_done done]
      exact ⟨true, rfl, Nat.le_add_right _ _⟩

section sockets

variable {w : World} {fd : Side} {source : Source} {data : Bytes}

theorem wp_sendAll_willing {post : Post World Bool} (enough : data.length ≤ willing (w.peer fd).sends)
    (ends : ∀ ok accepted left, willing (w.peer fd).sends ≤ willing left + data.length →
      post.returns ok (w.sent fd source accepted left)) : wp (sendAll fd source data) post w := by
  obtain ⟨ok, result, left⟩ := sendLoop_willing data 0 (w.peer fd).sends enough
  have run : (sendAll fd source data).run w = .ok ok (w.sent fd source
      (sendLoop data 0 (w.peer fd).sends).accepted (sendLoop data 0 (w.peer fd).sends).sends) := by
    unfold sendAll EStateM.run
    dsimp only
    rw [result]
  exact (wp_of_ok run).mpr (ends ok _ _ left)

theorem error_response_fits {status_code : Nat} {message : Bytes}
    (sent : (status_code, message) = (400, bytes "Bad Request") ∨
      (status_code, message) = (500, bytes "Internal Server Error") ∨
      (status_code, message) = (501, bytes "Not Implemented") ∨
      (status_code, message) = (502, bytes "Bad Gateway")) :
    (error_response status_code message).length ≤ reserve := by
  rcases sent with same | same | same | same <;> cases same <;> decide

theorem wp_sendErrorResponse {status_code : Nat} {message : Bytes} {post : Post World Unit}
    (fits : (error_response status_code message).length ≤ reserve)
    (enough : reserve ≤ willing w.client.sends) (ends : ∀ w', post.returns () w') :
    wp (sendErrorResponse status_code message) post w := by
  unfold sendErrorResponse
  refine (wp_bind _ _ _ _).mpr (wp_sendAll_willing (Nat.le_trans fits enough) ?_)
  exact fun _ _ _ _ => ends _

/-- An error response, and return false. -/
theorem wp_refuse {status_code : Nat} {message : Bytes} {post : Post World Bool}
    (fits : (error_response status_code message).length ≤ reserve)
    (enough : reserve ≤ willing w.client.sends) (ends : ∀ w', post.returns false w') :
    wp (do sendErrorResponse status_code message; return false : Handling Bool) post w :=
  (wp_bind _ _ _ _).mpr (wp_sendErrorResponse fits enough ends)

/-! ## Forwarding -/

theorem wp_contactOrigin {env : Environment} {request : Request} {post : Post World Bool}
    (room : reserve ≤ willing w.client.sends)
    (enough : request.request.length ≤ willing w.server.sends)
    (ends : ∀ ok w', (ok = true → w'.client = w.client ∧ w'.server.recvs = w.server.recvs) →
      post.returns ok w') (throws : ∀ e, post.throws e w) :
    wp (contactOrigin env request) post w := by
  have refused (w' : World) : post.returns false w' := ends false w' nofun
  unfold contactOrigin
  apply wp_ite
  · exact fun _ => wp_refuse (error_response_fits (.inl rfl)) room refused
  intro _
  apply wp_ofExcept_bind ?_ (fun e _ => throws e)
  intro server_fd _
  apply wp_ite
  · exact fun _ => wp_refuse (error_response_fits (.inr (.inl rfl))) room refused
  intro _
  apply wp_ofExcept_bind ?_ (fun e _ => throws e)
  intro port _
  refine (wp_bind _ _ _ _).mpr (wp_connect ?_)
  intro connected dialled
  apply wp_ite
  · exact fun _ => wp_refuse (error_response_fits (.inr (.inr (.inr rfl)))) room refused
  intro _
  refine (wp_bind _ _ _ _).mpr (wp_sendAll_willing enough ?_)
  intro ok accepted left _
  apply wp_ite
  · exact fun _ => wp_refuse (error_response_fits (.inr (.inr (.inr rfl)))) room refused
  · exact fun _ => ends true _ (fun _ => ⟨rfl, rfl⟩)

theorem wp_headerLoop (response_str : Bytes) (recvs : List RecvOutcome) {post : Post World Bytes}
    (ended : 1 ≤ endings recvs)
    (ends : ∀ h w', w'.client = w.client → endings recvs ≤ endings w'.server.recvs + 1 →
      h.length + volume w'.server.recvs = response_str.length + volume recvs → post.returns h w') :
    wp (headerLoop response_str recvs) post w := by
  induction recvs generalizing response_str w with
  | nil => exact absurd ended (by decide)
  | cons outcome left ih =>
    unfold headerLoop
    refine (wp_bind _ _ _ _).mpr ?_
    cases outcome with
    | data segment =>
      rw [endings_data] at ended
      rw [endings_data, volume_cons] at ends
      apply wp_ite
      · intro _
        refine ends _ _ rfl (Nat.le_succ _) ?_
        rw [List.length_append, Nat.add_assoc]
        rfl
      · intro _
        apply ih _ ended
        intro h w' client ended' bytes'
        apply ends h w' client ended'
        rw [bytes', List.length_append, Nat.add_assoc]
        rfl
    | closed =>
      rw [endings_ended rfl, volume_ended rfl] at ends
      exact ends _ _ rfl (Nat.le_refl _) rfl
    | failed errno =>
      rw [endings_ended rfl, volume_ended rfl] at ends
      exact ends _ _ rfl (Nat.le_refl _) rfl

theorem wp_bodyLoop (f : Framing) (is_cacheable : Bool) (response_buffer : Bytes)
    (body_received : Nat) (recvs : List RecvOutcome) {post : Post World (Option Bytes)} (ended : 1 ≤ endings recvs)
    (enough : volume recvs ≤ willing w.client.sends) (ends : ∀ r w', post.returns r w') :
    wp (bodyLoop f is_cacheable response_buffer body_received recvs) post w := by
  induction recvs generalizing response_buffer body_received w with
  | nil => exact absurd ended (by decide)
  | cons outcome left ih =>
    unfold bodyLoop
    refine (wp_bind _ _ _ _).mpr ?_
    rw [volume_cons] at enough
    cases outcome with
    | data segment =>
      rw [endings_data] at ended
      have room : segment.data.length + volume left ≤ willing w.client.sends := enough
      refine (wp_bind _ _ _ _).mpr (wp_sendAll_willing (Nat.le_of_add_right_le room) ?_)
      intro ok accepted left' passed
      have passed : willing w.client.sends ≤ willing left' + segment.data.length := passed
      apply wp_ite
      · exact fun _ => ends _ _
      intro _
      apply wp_ite
      · exact fun _ => ends _ _
      · intro _
        refine ih _ _ ended ?_
        change volume left ≤ willing left'
        omega
    | closed => exact ends _ _
    | failed errno => exact ends _ _

theorem wp_store {env : Environment} {request : Request} {h line body : Bytes}
    {post : Post World Unit} (ends : ∀ w', post.returns () w') :
    wp (store env request h line body) post w := by
  unfold store
  split
  · exact ends w
  · split
    · exact ends w
    · exact ends _

theorem wp_relayBody {env : Environment} {request : Request} {h : Bytes}
    (ended : 1 ≤ endings w.server.recvs)
    (enough : volume w.server.recvs + reserve ≤ willing w.client.sends) :
    wp (relayBody env request h) returning w := by
  unfold relayBody
  apply wp_ofExcept_bind ?_ (fun _ _ => Nat.le_of_add_left_le enough)
  intro f _
  refine (wp_bind _ _ _ _).mpr ?_
  rw [wp_get]
  refine (wp_bind _ _ _ _).mpr (wp_bodyLoop _ _ _ _ _ ended (Nat.le_of_add_right_le enough) ?_)
  intro r w'
  cases r with
  | none => exact True.intro
  | some response_buffer =>
    apply wp_ite
    · exact fun _ => (wp_bind _ _ _ _).mpr (wp_store (fun _ => True.intro))
    · exact fun _ => True.intro

theorem wp_forwardRequest {env : Environment} {request : Request}
    (asked : request.request.length ≤ willing w.server.sends) (ended : 2 ≤ endings w.server.recvs)
    (enough : volume w.server.recvs + reserve ≤ willing w.client.sends) :
    wp (forwardRequest env request) returning w := by
  have room := Nat.le_of_add_left_le enough
  unfold forwardRequest
  refine (wp_bind _ _ _ _).mpr (wp_contactOrigin room asked ?_ (fun _ => room))
  intro ok w₁ contacted
  apply wp_ite
  · exact fun _ => True.intro
  intro reached
  obtain ⟨client, server⟩ := contacted (by simpa using reached)
  refine (wp_bind _ _ _ _).mpr ?_
  rw [wp_get]
  refine (wp_bind _ _ _ _).mpr (wp_headerLoop [] _ (by rw [server]; omega) ?_)
  intro h w₂ client₂ ended₂ bytes₂
  rw [server, List.length_nil, Nat.zero_add] at bytes₂
  rw [server] at ended₂
  have sends : w₂.client.sends = w.client.sends := by rw [client₂, client]
  apply wp_ite
  · intro _
    refine wp_refuse (error_response_fits (.inr (.inr (.inr rfl)))) (by rw [sends]; exact room) ?_
    exact fun _ => True.intro
  intro _
  refine (wp_bind _ _ _ _).mpr (wp_sendAll_willing ?_ ?_)
  · change h.length ≤ willing w₂.client.sends
    rw [sends]
    omega
  intro ok accepted left passed
  have passed : willing w₂.client.sends ≤ willing left + h.length := passed
  rw [sends] at passed
  apply wp_ite
  · exact fun _ => True.intro
  · intro _
    apply wp_relayBody
    · change 1 ≤ endings w₂.server.recvs
      omega
    · change volume w₂.server.recvs + reserve ≤ willing left
      omega

theorem wp_serve {env : Environment} {cached_entry : CacheEntry}
    (enough : (hit_message env cached_entry).length ≤ willing w.client.sends) :
    wp (serve env cached_entry) returning w := by
  rw [hit_message, List.length_append] at enough
  unfold serve
  refine (wp_bind _ _ _ _).mpr (wp_sendAll_willing (Nat.le_of_add_right_le enough) ?_)
  intro ok accepted left passed
  have passed :
      willing w.client.sends ≤ willing left + (hit_headers env cached_entry).length := passed
  apply wp_ite
  · exact fun _ => True.intro
  intro _
  apply wp_ite
  · intro _
    refine (wp_bind _ _ _ _).mpr (wp_sendAll_willing ?_ ?_)
    · change cached_entry.data.length ≤ willing left
      omega
    · intro ok _ _ _
      cases ok <;> exact True.intro
  · exact fun _ => True.intro

/-! ## Tunnels -/

end sockets

/-- The tunnel is left after this poll, whatever is received. -/
def Poll.Stops : Poll → Prop
  | .failed => True
  | .timeout => False
  | .ready client server => client.hangup = true ∨ server.hangup = true

/-- A recv follows on this side. -/
def Poll.reads : Poll → Side → Bool
  | .ready client _, .client => client.pollin
  | .ready _ server, .server => server.pollin
  | _, _ => false

/-- At one of the next `n` polls the tunnel is left: one fails or reports a hangup, or a side is
read that is at its end. -/
inductive Closes : Nat → List Poll → (Side → List RecvOutcome) → Prop where
  | stops {n : Nat} {poll : Poll} {polls : List Poll} {recvs : Side → List RecvOutcome}
    (stop : poll.Stops) : Closes (n + 1) (poll :: polls) recvs
  | ended {n : Nat} {poll : Poll} {polls : List Poll} {recvs : Side → List RecvOutcome} (fd : Side)
    (reads : poll.reads fd = true) {outcome : RecvOutcome} (next : (recvs fd).head? = some outcome)
    (ended : outcome.bytes = []) : Closes (n + 1) (poll :: polls) recvs
  | goes_on {n : Nat} {poll : Poll} {polls : List Poll} {recvs : Side → List RecvOutcome}
    (rest : Closes n polls (fun fd => if poll.reads fd then (recvs fd).tail else recvs fd)) :
    Closes (n + 1) (poll :: polls) recvs

/-- What is left after one direction of a pass; `closed` if the stream that was read is at its end. -/
structure PassedOn (reads : Bool) (src dst : Side) (w : World) (closed : Bool) (w' : World) :
    Prop where
  recvs_src : (w'.peer src).recvs = if reads then (w.peer src).recvs.tail else (w.peer src).recvs
  recvs_dst : (w'.peer dst).recvs = (w.peer dst).recvs
  sends_src : (w'.peer src).sends = (w.peer src).sends
  sends_dst : willing (w.peer dst).sends ≤ willing (w'.peer dst).sends + BUFFER_SIZE
  ended : reads = true → ∀ outcome, (w.peer src).recvs.head? = some outcome → outcome.bytes = [] →
    closed = true

theorem peer_sent_other {fd fd' : Side} (other : fd ≠ fd') (w : World) (source : Source)
    (accepted : Bytes) (left : List SendOutcome) : (w.sent fd source accepted left).peer fd' =
      w.peer fd' := by
  cases fd <;> cases fd' <;> first | rfl | exact absurd rfl other

theorem peer_got_other {fd fd' : Side} (other : fd ≠ fd') (w : World) (data : Bytes)
    (left : List RecvOutcome) : (w.got fd data left).peer fd' = w.peer fd' := by
  cases fd <;> cases fd' <;> first | rfl | exact absurd rfl other

/-- One direction of a pass, if it is ready, and what comes after it. -/
theorem wp_passOn {src dst : Side} (other : src ≠ dst) {reads : Bool} {w : World}
    {rest : Bool × Bool → Handling Bool} {post : Post World Bool}
    (answered : (w.peer src).recvs ≠ []) (enough : BUFFER_SIZE ≤ willing (w.peer dst).sends)
    (ends : ∀ closed gone w', PassedOn reads src dst w closed w' →
      wp (rest (closed, gone)) post w') :
    wp (if reads = true then tunnelStep src dst >>= rest else pure (false, false) >>= rest) post
      w := by
  apply wp_ite
  · rintro rfl
    unfold tunnelStep recv
    refine (wp_bind _ _ _ _).mpr ((wp_bind _ _ _ _).mpr ((wp_bind _ _ _ _).mpr ?_))
    rw [wp_get]
    dsimp only
    cases next : (w.peer src).recvs with
    | nil => exact absurd next answered
    | cons outcome left =>
      have far (data : Bytes) : (w.got src data left).peer dst = w.peer dst :=
        peer_got_other other w data left
      have near (data : Bytes) : (w.got src data left).peer src =
          { w.peer src with recvs := left, received := (w.peer src).received ++ data } := by
        cases src <;> rfl
      have quiet (data : Bytes) (closed : Bool)
          (ended : outcome.bytes = [] → closed = true) : PassedOn true src dst w closed
            (w.got src data left) := by
        constructor
        case recvs_src => rw [near, next]; rfl
        case recvs_dst => rw [far]
        case sends_src => rw [near]
        case sends_dst => rw [far]; exact Nat.le_add_right _ _
        case ended =>
          intro _ outcome' first
          rw [next, List.head?_cons, Option.some.injEq] at first
          exact first ▸ ended
      cases outcome with
      | data segment =>
        change wp (do let ok ← sendAll dst .peer segment.data; pure (false, !ok))
          { post with returns := fun r => wp (rest r) post } (w.got src segment.data left)
        have room : segment.data.length ≤ willing ((w.got src segment.data left).peer dst).sends := by
          rw [far]
          exact Nat.le_trans segment.fits enough
        refine (wp_bind _ _ _ _).mpr (wp_sendAll_willing room ?_)
        intro ok accepted left' passed
        rw [far] at passed
        have begun := quiet segment.data false (fun ended => absurd ended segment.some_bytes)
        refine ends false (!ok) _ ⟨?_, ?_, ?_, ?_, begun.ended⟩
        · rw [peer_sent_other other.symm]
          exact begun.recvs_src
        · rw [← begun.recvs_dst]
          cases dst <;> rfl
        · rw [peer_sent_other other.symm]
          exact begun.sends_src
        · have taken : (((w.got src segment.data left).sent dst .peer accepted left').peer dst).sends =
              left' := by cases dst <;> rfl
          rw [taken]
          exact Nat.le_trans passed (Nat.add_le_add_left segment.fits _)
      | closed => exact ends true false _ (quiet _ true (fun _ => rfl))
      | failed errno => exact ends true false _ (quiet _ true (fun _ => rfl))
  · intro skipped
    refine ends false false w ⟨?_, rfl, rfl, Nat.le_add_right _ _, fun reads => absurd reads skipped⟩
    rw [if_neg skipped]

/-- What is left after both directions of a pass. -/
structure Pass (poll : Poll) (w : World) (closed : Bool) (w' : World) : Prop where
  recvs : ∀ fd, (w'.peer fd).recvs =
    if poll.reads fd then (w.peer fd).recvs.tail else (w.peer fd).recvs
  sends : ∀ fd, willing (w.peer fd).sends ≤ willing (w'.peer fd).sends + BUFFER_SIZE
  ended : ∀ fd, poll.reads fd = true → ∀ outcome, (w.peer fd).recvs.head? = some outcome →
    outcome.bytes = [] → closed = true

theorem PassedOn.both {w w₁ w₂ : World} {client server : Revents} {client_closed server_closed : Bool}
    (up : PassedOn client.pollin .client .server w client_closed w₁)
    (down : PassedOn server.pollin .server .client w₁ server_closed w₂) {closed : Bool}
    (left : client_closed = true ∨ server_closed = true → closed = true) :
    Pass (.ready client server) w closed w₂ := by
  constructor
  case recvs =>
    intro fd
    cases fd with
    | client => exact down.recvs_dst.trans up.recvs_src
    | server =>
      rw [down.recvs_src, up.recvs_dst]
      rfl
  case sends =>
    intro fd
    cases fd with
    | client =>
      rw [← up.sends_src]
      exact down.sends_dst
    | server =>
      rw [down.sends_src]
      exact up.sends_dst
  case ended =>
    intro fd reads outcome next ended
    cases fd with
    | client => exact left (Or.inl (up.ended reads outcome next ended))
    | server =>
      rw [← up.recvs_dst] at next
      exact left (Or.inr (down.ended reads outcome next ended))

theorem tunnelLoop_closed {client_closed server_closed : Bool}
    (closed : (client_closed || server_closed) = true) (polls : List Poll) :
    tunnelLoop client_closed server_closed polls = pure true := by
  unfold tunnelLoop
  rw [if_pos closed]

theorem wp_tunnelLoop_cons {poll : Poll} {polls : List Poll} {w : World}
    (answered : ∀ fd, (w.peer fd).recvs ≠ [])
    (enough : ∀ fd, BUFFER_SIZE ≤ willing (w.peer fd).sends)
    (next : ¬ poll.Stops → ∀ a b w', Pass poll w (a || b) w' →
      wp (tunnelLoop a b polls) returning w') :
    wp (tunnelLoop false false (poll :: polls)) returning w := by
  have peers (fd : Side) : ({ w with polls := polls } : World).peer fd = w.peer fd := by
    cases fd <;> rfl
  unfold tunnelLoop
  refine (wp_bind _ _ _ _).mpr ?_
  change wp _ _ { w with polls := polls }
  cases poll with
  | failed => exact True.intro
  | timeout =>
    refine next (fun stop => stop) false false _ ⟨?_, ?_, ?_⟩
    · exact fun fd => congrArg Peer.recvs (peers fd)
    · intro fd
      rw [peers]
      exact Nat.le_add_right _ _
    · rintro fd ⟨⟩
  | ready client server =>
    have apart : Side.client ≠ .server := by decide
    refine wp_passOn apart ?_ ?_ ?_
    · rw [peers]
      exact answered .client
    · rw [peers]
      exact enough .server
    intro client_closed server_gone w₁ up
    refine wp_passOn apart.symm ?_ ?_ ?_
    · rw [up.recvs_dst, peers]
      exact answered .server
    · rw [up.sends_src, peers]
      exact enough .client
    intro server_closed client_gone w₂ down
    apply wp_ite
    · exact fun _ => True.intro
    · intro on
      have left : client_closed = true ∨ server_closed = true →
          ((client_closed || client_gone) || (server_closed || server_gone)) = true := by
        rintro (rfl | rfl)
        · rfl
        · rw [Bool.true_or, Bool.or_true]
      have pass := up.both down left
      refine next (by simpa [Poll.Stops] using on) _ _ w₂ ⟨?_, ?_, ?_⟩
      · intro fd
        rw [pass.recvs, peers]
      · intro fd
        rw [← peers]
        exact pass.sends fd
      · intro fd reads outcome first
        rw [← peers] at first
        exact pass.ended fd reads outcome first

/-- A tunnel that closes returns if each side answers as many calls as there are polls until then. -/
theorem wp_tunnelLoop {n : Nat} {polls : List Poll} {recvs : Side → List RecvOutcome}
    (closes : Closes n polls recvs) {w : World} (same : ∀ fd, (w.peer fd).recvs = recvs fd)
    (answered : ∀ fd, n ≤ (recvs fd).length)
    (enough : ∀ fd, n * BUFFER_SIZE ≤ willing (w.peer fd).sends) :
    wp (tunnelLoop false false polls) returning w := by
  have first {n : Nat} {w : World} {recvs : Side → List RecvOutcome}
      (same : ∀ fd, (w.peer fd).recvs = recvs fd) (answered : ∀ fd, n + 1 ≤ (recvs fd).length)
      (enough : ∀ fd, (n + 1) * BUFFER_SIZE ≤ willing (w.peer fd).sends) :
      (∀ fd, (w.peer fd).recvs ≠ []) ∧ ∀ fd, BUFFER_SIZE ≤ willing (w.peer fd).sends := by
    refine ⟨fun fd none => ?_, fun fd => ?_⟩
    · have := answered fd
      rw [← same fd, none] at this
      exact absurd this (Nat.not_succ_le_zero n)
    · exact Nat.le_trans (Nat.le_mul_of_pos_left _ (Nat.succ_pos n)) (enough fd)
  induction closes generalizing w with
  | stops stop =>
    obtain ⟨answers, sends⟩ := first same answered enough
    exact wp_tunnelLoop_cons answers sends (fun on => absurd stop on)
  | @ended n poll polls recvs fd reads outcome next ended =>
    obtain ⟨answers, sends⟩ := first same answered enough
    refine wp_tunnelLoop_cons answers sends (fun _ a b w' pass => ?_)
    rw [tunnelLoop_closed (pass.ended fd reads outcome (by rw [same fd, next]) ended)]
    exact True.intro
  | @goes_on n poll polls recvs rest ih =>
    obtain ⟨answers, sends⟩ := first same answered enough
    refine wp_tunnelLoop_cons answers sends (fun _ a b w' pass => ?_)
    cases closed : a || b with
    | true =>
      rw [tunnelLoop_closed closed]
      exact True.intro
    | false =>
      obtain ⟨rfl, rfl⟩ := Bool.or_eq_false_iff.mp closed
      apply ih
      · intro fd
        rw [pass.recvs, same]
      · intro fd
        have := answered fd
        dsimp only
        split
        · rw [List.length_tail]
          omega
        · omega
      · intro fd
        have before := enough fd
        rw [Nat.succ_mul] at before
        exact Nat.le_of_add_le_add_right (Nat.le_trans before (pass.sends fd))

/-! ## A handler with enough answers -/

/-- A CONNECT request finds its tunnel closed in time. -/
def TunnelAnswered (w : World) : Prop := ∃ n, Closes n w.polls (fun fd => (w.peer fd).recvs) ∧
  ∀ fd, n ≤ (w.peer fd).recvs.length ∧ reserve + n * BUFFER_SIZE ≤ willing (w.peer fd).sends

/-- An origin ends its answer, and the client takes all of it. -/
def OriginAnswered (w : World) : Prop :=
  2 ≤ endings w.server.recvs ∧ volume w.server.recvs + reserve ≤ willing w.client.sends

/-- The request goes to an origin. -/
structure AsksOrigin (env : Environment) (request : Request) : Prop where
  method : request.method = bytes "GET" ∨ request.method = bytes "POST"
  miss : request.method = bytes "GET" → ∀ cached_entry, env.lookup request.url = some cached_entry →
    cached_entry.isExpired env.now = true

/-- What the handler needs to be answered after the request has come. -/
structure Enough (env : Environment) (request : Request) (w : World) : Prop where
  room : reserve ≤ willing w.client.sends
  asked : request.request.length ≤ willing w.server.sends
  hit : ∀ cached_entry, env.lookup request.url = some cached_entry →
    (hit_message env cached_entry).length ≤ willing w.client.sends
  tunnel : request.method = bytes "CONNECT" → TunnelAnswered w
  origin : AsksOrigin env request → OriginAnswered w

theorem wp_processConnectRequest {env : Environment} {request : Request} {w : World}
    (room : reserve ≤ willing w.client.sends) (tunnel : TunnelAnswered w) :
    wp (processConnectRequest env request) returning w := by
  have short : ok_response.length ≤ reserve := by decide
  unfold processConnectRequest
  apply wp_ofExcept_bind ?_ (fun _ _ => room)
  intro server_fd _
  apply wp_ofExcept_bind ?_ (fun _ _ => room)
  intro port _
  refine (wp_bind _ _ _ _).mpr (wp_connect ?_)
  intro connected dialled
  apply wp_ite
  · intro _
    exact wp_refuse (error_response_fits (.inr (.inr (.inr rfl)))) room (fun _ => True.intro)
  intro _
  refine (wp_bind _ _ _ _).mpr (wp_sendAll_willing (Nat.le_trans short room) ?_)
  intro ok accepted left passed
  have passed : willing w.client.sends ≤ willing left + ok_response.length := passed
  apply wp_ite
  · exact fun _ => True.intro
  intro _
  unfold tunnelTraffic
  refine (wp_bind _ _ _ _).mpr ?_
  rw [wp_get]
  obtain ⟨n, closes, answered⟩ := tunnel
  refine wp_tunnelLoop closes ?_ (fun fd => (answered fd).1) ?_
  · intro fd
    cases fd <;> rfl
  · intro fd
    have room := (answered fd).2
    cases fd with
    | client =>
      have room : reserve + n * BUFFER_SIZE ≤ willing w.client.sends := room
      change n * BUFFER_SIZE ≤ willing left
      generalize n * BUFFER_SIZE = bytes at room ⊢
      omega
    | server => exact Nat.le_of_add_left_le room

theorem wp_dispatch {env : Environment} {request : Request} {w : World}
    (enough : Enough env request w) : wp (dispatch env request) returning w := by
  by_cases method : request.method = bytes "GET" ∨ request.method = bytes "POST"
  · rcases dispatch_cases env method with ⟨cached_entry, -, found, -, hit⟩ | ⟨miss, forward⟩
    · rw [hit]
      exact wp_serve (enough.hit cached_entry found)
    · rw [forward]
      have origin := enough.origin ⟨method, miss⟩
      exact wp_forwardRequest enough.asked origin.1 origin.2
  · obtain ⟨get, post⟩ := not_or.mp method
    unfold dispatch
    rw [if_neg get, if_neg post]
    apply wp_ite
    · exact fun connect => wp_processConnectRequest enough.room (enough.tunnel connect)
    · intro _
      exact wp_refuse (error_response_fits (.inr (.inr (.inl rfl)))) enough.room
        (fun _ => True.intro)

/-- The request that a handler reads. -/
def Requested (env : Environment) (outcome : RecvOutcome) (request : Request) : Prop :=
  ∃ segment, outcome = .data segment ∧ Request.parse env.put (Request.new segment.data) = .ok request

theorem returns_of_enough {env : Environment} {k : Kernel} {outcome : RecvOutcome}
    {left : List RecvOutcome} (first : k.client_recvs = outcome :: left)
    (room : reserve ≤ willing k.client_sends)
    (enough : ∀ request, Requested env outcome request →
      Enough env request ((World.start k).got .client outcome.bytes left)) :
    ∃ w', (handle_connection env).run (World.start k) = .ok () w' := by
  have handled : wp (handle_connection env) ⟨fun _ _ => True, fun _ _ => False, fun _ => False⟩
      (World.start k) := by
    unfold handle_connection
    refine (wp_catching _ _ _ _).mpr ((wp_bind _ _ _ _).mpr ((wp_of_ok (recv_start first)).mpr ?_))
    cases outcome with
    | data segment =>
      dsimp only
      cases parsed : Request.parse env.put (Request.new segment.data) with
      | error e =>
        exact wp_sendErrorResponse (error_response_fits (.inl rfl)) room (fun _ => True.intro)
      | ok request =>
        refine (wp_bind _ _ _ _).mpr (wp_mono (wp_dispatch (enough request ⟨segment, rfl, parsed⟩))
          (fun _ _ _ => True.intro) (fun _ _ room => ?_) (fun _ waits => waits))
        exact wp_sendErrorResponse (error_response_fits (.inr (.inl rfl))) room
          (fun _ => True.intro)
    | closed => exact True.intro
    | failed errno => exact True.intro
  unfold wp at handled
  split at handled
  · rename_i w' run
    exact ⟨w', run⟩
  · exact handled.elim
  · exact handled.elim

end CachingProxy
