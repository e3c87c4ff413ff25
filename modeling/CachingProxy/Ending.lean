import CachingProxy.Tunnel

/-! What ends a tunnel, and what it leaves behind. The sockets are non-blocking while it lasts, so a
send may find no room, and a pass of the loop reads each side once at most. -/
namespace CachingProxy
open Cpp

namespace Tunnel

/-! ## A turn and what comes after it -/

@[simp] theorem closed_again (t : Tunnel) : t.again.closed = t.closed := rfl

@[simp] theorem closed_checkHangup (t : Tunnel) (client server : Revents) :
    (t.checkHangup client server).closed = t.closed := by
  unfold checkHangup
  split <;> rfl

@[simp] theorem closed_checkServer (t : Tunnel) (client server : Revents) :
    (t.checkServer client server).closed = t.closed := by
  unfold checkServer
  split
  · rfl
  · exact closed_checkHangup t client server

@[simp] theorem closed_checkClient (t : Tunnel) (client server : Revents) :
    (t.checkClient client server).closed = t.closed := by
  unfold checkClient
  split
  · rfl
  · exact closed_checkServer t client server

@[simp] theorem closed_next (t : Tunnel) (src : Side) (client server : Revents) :
    (t.next src client server).closed = t.closed := by
  cases src
  · exact closed_checkServer t client server
  · exact closed_checkHangup t client server

/-- What ends the loop after a pass. -/
def Ends (t : Tunnel) (client server : Revents) : Prop :=
  client.hangup = true ∨ server.hangup = true ∨ ∃ fd, t.closed fd = true

theorem checkHangup_cases (t : Tunnel) (client server : Revents) :
    (t.Ends client server ∧ t.checkHangup client server = { t with position := .done true }) ∨
      ¬ t.Ends client server ∧ t.checkHangup client server = { t with position := .poll } := by
  have flags : (∃ fd, t.closed fd = true) ↔ (t.closed .client || t.closed .server) = true := by
    rw [Bool.or_eq_true]
    constructor
    · rintro ⟨fd, up⟩
      cases fd
      · exact Or.inl up
      · exact Or.inr up
    · rintro (up | up)
      · exact ⟨_, up⟩
      · exact ⟨_, up⟩
  unfold Ends checkHangup again
  rw [flags, ← or_assoc, ← Bool.or_eq_true]
  by_cases hangup : (client.hangup || server.hangup) = true
  · exact Or.inl ⟨Or.inl hangup, if_pos hangup⟩
  · rw [if_neg hangup]
    by_cases stop : (t.closed .client || t.closed .server) = true
    · exact Or.inl ⟨Or.inr stop, by rw [if_pos stop]⟩
    · exact Or.inr ⟨not_or.mpr ⟨hangup, stop⟩, by rw [if_neg stop]⟩

/-- After the turn of the client comes that of the server, if poll reported it; then the pass is
over. -/
theorem next_cases (t : Tunnel) (src : Side) (client server : Revents) :
    (src = .client ∧ t.next src client server = { t with position := .recv .server client server }) ∨
      (t.Ends client server ∧ t.next src client server = { t with position := .done true }) ∨
      ¬ t.Ends client server ∧ t.next src client server = { t with position := .poll } := by
  cases src with
  | client =>
    unfold next checkServer
    dsimp only
    by_cases ready : server.pollin = true
    · exact Or.inl ⟨rfl, if_pos ready⟩
    · rw [if_neg ready]
      exact Or.inr (checkHangup_cases t client server)
  | server => exact Or.inr (checkHangup_cases t client server)

theorem checkClient_cases (t : Tunnel) (client server : Revents) :
    t.checkClient client server = { t with position := .recv .client client server } ∨
      t.checkClient client server = t.next .client client server := by
  unfold checkClient
  split
  · exact Or.inl rfl
  · exact Or.inr rfl

/-! ## Back-pressure -/

/-- Both peers stay connected, and a send fails for want of room or because of a signal only. -/
def Calm : TunnelAnswer → Prop
  | .poll (.ready client server) => client.hangup = false ∧ server.hangup = false
  | .recv .closed => False
  | .recv (.failed errno) => errno ≠ .other
  | .send outcome => outcome.sent < 0 → outcome.errno ≠ .other
  | _ => True

/-- An answer that the loop goes on after: no failure but a send that is interrupted. -/
def Unhindered : TunnelAnswer → Prop
  | .poll .failed => False
  | .recv .closed => False
  | .recv (.failed _) => False
  | .send outcome => 0 < outcome.sent ∨ outcome.errno = .EINTR
  | _ => True

/-- Every byte received from a side is with the other one or on its way to it. -/
def Keeping (t : Tunnel) : Prop := ∀ src, (t.ways src).received = (t.ways src).sent ++ t.unsent src

/-- The tunnel has not ended, it is not going to end after this pass, and no byte is lost. -/
structure Open (t : Tunnel) : Prop where
  going : ∀ result, t.position ≠ .done result
  flags : ∀ fd, t.closed fd = false
  keeping : t.Keeping

/-- No hangup is behind the pass that is being made. -/
def Quiet (t : Tunnel) : Prop :=
  match t.position with
  | .recv _ client server => client.hangup = false ∧ server.hangup = false
  | .send _ client server _ _ => client.hangup = false ∧ server.hangup = false
  | _ => True

theorem open_of_sound {t : Tunnel} (h : Sound t) (going : ∀ result, t.position ≠ .done result)
    (flags : ∀ fd, t.closed fd = false) : Open t := by
  refine ⟨going, flags, fun src => (h.flows src).whole ?_⟩
  cases failed : (t.ways src).failed with
  | false => rfl
  | true => exact absurd ((h.stops.closed src failed).symm.trans (flags _)) (by decide)

theorem next_position (t : Tunnel) (src : Side) {client server : Revents}
    (quiet : client.hangup = false ∧ server.hangup = false) :
    Quiet (t.next src client server) ∧ ((∀ fd, t.closed fd = false) →
      ∀ result, (t.next src client server).position ≠ .done result) := by
  rcases next_cases t src client server with ⟨-, same⟩ | ⟨ends, same⟩ | ⟨-, same⟩
  · rw [same]
    exact ⟨quiet, fun _ _ e => (by cases e)⟩
  · rw [same]
    refine ⟨trivial, fun flags => absurd ends ?_⟩
    rintro (up | up | ⟨fd, up⟩)
    · cases quiet.1.symm.trans up
    · cases quiet.2.symm.trans up
    · cases (flags fd).symm.trans up
  · rw [same]
    exact ⟨trivial, fun _ _ e => (by cases e)⟩

theorem checkClient_position {t : Tunnel} {client server : Revents}
    (quiet : client.hangup = false ∧ server.hangup = false) :
    Quiet (t.checkClient client server) ∧ ((∀ fd, t.closed fd = false) →
      ∀ result, (t.checkClient client server).position ≠ .done result) := by
  rcases checkClient_cases t client server with same | same
  · rw [same]
    exact ⟨quiet, fun _ _ e => (by cases e)⟩
  · rw [same]
    exact next_position t .client quiet

/-- A flag that is up stays up. -/
theorem closed_step {t t' : Tunnel} {answer : TunnelAnswer} (stepped : t.step answer = some t')
    {fd : Side} (up : t.closed fd = true) : t'.closed fd = true := by
  rcases step_cases stepped with ⟨p, -, -, rfl⟩ | ⟨src, client, server, outcome, -, -, rfl⟩ |
    ⟨src, client, server, bytes_read, total_sent, outcome, -, -, rfl⟩
  · cases p with
    | failed => exact up
    | timeout => exact up
    | ready client server => exact (congrFun (closed_checkClient t client server) fd).trans up
  · cases outcome with
    | data segment => exact up
    | closed => simp [received, up]
    | failed errno => simp [received, up]
  · rcases send_cases outcome (bytes_read - total_sent) with
      ⟨unsent, again⟩ | ⟨unsent, failed⟩ | ⟨m, some_bytes, -, took⟩
    · rw [sent_again unsent again, up]
    · simp [sent_failed unsent failed, up]
    · rw [sent_took some_bytes took]
      split
      · exact up
      · rw [closed_next]
        exact up

/-- One answer keeps the tunnel open exactly if it was and the answer does not hinder it. -/
theorem open_step {t t' : Tunnel} {answer : TunnelAnswer} (h : Sound t) (quiet : Quiet t)
    (calm : Calm answer) (stepped : t.step answer = some t') :
    Quiet t' ∧ (Open t' ↔ Open t ∧ Unhindered answer) := by
  have sound := sound_step t answer t' h stepped
  have before (opened : Open t') : ∀ fd, t.closed fd = false := by
    intro fd
    cases up : t.closed fd with
    | false => rfl
    | true => cases (closed_step stepped up).symm.trans (opened.flags fd)
  have live := h.stops.live
  rcases step_cases stepped with ⟨p, position, rfl, rfl⟩ | ⟨src, client, server, outcome, position,
    rfl, rfl⟩ | ⟨src, client, server, bytes_read, total_sent, outcome, position, rfl, rfl⟩
  · have going : ∀ result, t.position ≠ .done result := fun _ e => by cases position.symm.trans e
    cases p with
    | failed => exact ⟨trivial, iff_of_false (fun opened => opened.going false rfl) And.right⟩
    | timeout => exact ⟨quiet, iff_of_eq (by simp [polled, Unhindered])⟩
    | ready client server =>
      obtain ⟨quiet', onward⟩ := checkClient_position (t := t) calm
      refine ⟨quiet', fun opened => ⟨open_of_sound h going (before opened), trivial⟩, ?_⟩
      rintro ⟨opened, -⟩
      refine open_of_sound sound (onward opened.flags) (fun fd => ?_)
      exact (congrFun (closed_checkClient t client server) fd).trans (opened.flags fd)
  · have going : ∀ result, t.position ≠ .done result := fun _ e => by cases position.symm.trans e
    rw [Quiet, position] at quiet
    have ended : ¬ Open ((t.close src).next src client server) := by
      intro opened
      have flag := opened.flags src
      simp at flag
    cases outcome with
    | closed => exact ⟨(next_position _ _ quiet).1, iff_of_false ended And.right⟩
    | failed errno => exact ⟨(next_position _ _ quiet).1, iff_of_false ended And.right⟩
    | data segment =>
      refine ⟨quiet, fun opened => ⟨open_of_sound h going (before opened), trivial⟩, ?_⟩
      rintro ⟨opened, -⟩
      exact open_of_sound sound (fun _ e => by cases e) opened.flags
  · have going : ∀ result, t.position ≠ .done result := fun _ e => by cases position.symm.trans e
    have quiet₀ := quiet
    rw [Quiet, position] at quiet
    rw [position] at live
    obtain ⟨-, more, -⟩ := live
    rcases send_cases outcome (bytes_read - total_sent) with
      ⟨unsent, again⟩ | ⟨unsent, failed⟩ | ⟨m, some_bytes, fits, took⟩
    · rw [sent_again unsent again]
      exact ⟨quiet₀, (and_iff_left (Or.inr again)).symm⟩
    · rw [sent_failed unsent failed]
      refine ⟨(next_position _ _ quiet).1, iff_of_false ?_ ?_⟩
      · intro opened
        have flag := opened.flags src.other
        simp at flag
      · rintro ⟨-, some_bytes | again⟩
        · omega
        · exact failed again
    · have unhindered : Unhindered (.send outcome) := Or.inl (by omega)
      rw [sent_took some_bytes took] at sound before ⊢
      rw [and_iff_left unhindered]
      split at sound
      · rename_i further
        rw [if_pos further] at before ⊢
        refine ⟨quiet, fun opened => open_of_sound h going (before opened), fun opened => ?_⟩
        exact open_of_sound sound (fun _ e => by cases e) opened.flags
      · rename_i all
        rw [if_neg all] at before ⊢
        obtain ⟨quiet', onward⟩ := next_position
          (t.pass src ((t.buffer.cells.drop total_sent).take m)) src quiet
        refine ⟨quiet', fun opened => open_of_sound h going (before opened), fun opened => ?_⟩
        refine open_of_sound sound (onward opened.flags) (fun fd => ?_)
        rw [closed_next]
        exact opened.flags fd

/-- While both peers stay connected the tunnel is open and loses nothing exactly as long as no send
is refused for want of room, and no recv and no poll fails. -/
theorem back_pressure_iff (buffer : Buffer) (answers : List TunnelAnswer) (t : Tunnel)
    (ran : (start buffer).run answers = some t) (calm : ∀ a ∈ answers, Calm a) :
    Open t ↔ ∀ a ∈ answers, Unhindered a := by
  have kept := Runs.history (P := fun past t => (∀ a ∈ past, Calm a) →
    Sound t ∧ Quiet t ∧ (Open t ↔ ∀ a ∈ past, Unhindered a)) ?_ ?_ ran
  · exact (kept calm).2.2
  · intro past t₁ a t₂ before stepped calm
    obtain ⟨earlier, now⟩ := List.forall_mem_append.mp calm
    obtain ⟨sound, quiet, opened⟩ := before earlier
    obtain ⟨quiet', opened'⟩ := open_step sound quiet (now a (List.mem_singleton_self a)) stepped
    refine ⟨sound_step _ _ _ sound stepped, quiet', ?_⟩
    rw [opened', opened, List.forall_mem_append, List.forall_mem_singleton]
  · intro _
    refine ⟨sound_start buffer, trivial, iff_of_true ?_ (by simp)⟩
    exact open_of_sound (sound_start buffer) (fun _ e => by cases e) (fun _ => rfl)

/-- The client sends a byte that the server's socket has no room for. -/
def no_room : List TunnelAnswer :=
  [.poll (.ready ⟨true, false, false, false⟩ ⟨false, false, false, false⟩),
    .recv (.data ⟨[1], by decide, by decide⟩), .send ⟨-1, .EAGAIN⟩]

theorem no_room_calm : ∀ a ∈ no_room, Calm a := by
  simp [no_room, Calm, Revents.hangup]

theorem back_pressure_iff_no_room : ∃ t, (start .blank).run no_room = some t ∧
    (Open t ↔ ∀ a ∈ no_room, Unhindered a) :=
  ⟨_, rfl, back_pressure_iff .blank no_room _ rfl no_room_calm⟩

/-- The tunnel ends and the byte is lost. -/
theorem not_always_open : ¬ ∀ (buffer : Buffer) (answers : List TunnelAnswer) (t : Tunnel),
    (start buffer).run answers = some t → (∀ a ∈ answers, Calm a) →
    (∀ result, t.position ≠ .done result) ∧ t.Keeping := by
  intro all
  obtain ⟨t, ran, ended⟩ : ∃ t, (start .blank).run no_room = some t ∧ t.position = .done true :=
    ⟨_, rfl, rfl⟩
  exact (all .blank no_room t ran no_room_calm).1 true ended

/-! ## What a pass reads -/

/-- The side that recv is about to read. -/
def reading (t : Tunnel) : Option Side :=
  match t.position with
  | .recv fd _ _ => some fd
  | _ => none

def ended (t : Tunnel) : Bool :=
  match t.position with
  | .done _ => true
  | _ => false

theorem read_of_reading {t t' : Tunnel} {fd : Side} {outcome : RecvOutcome}
    (reads : t.reading = some fd) (called : t.step (.recv outcome) = some t') :
    ∃ client server, t.position = .recv fd client server ∧
      t' = t.received fd client server outcome := by
  unfold reading at reads
  split at reads
  · rename_i fd client server position
    cases reads
    unfold step at called
    rw [position] at called
    exact ⟨client, server, position, (Option.some.inj called).symm⟩
  · cases reads

/-- In this pass no recv on the side is still to come. -/
def Turned (src : Side) (t : Tunnel) : Prop :=
  match t.position with
  | .recv fd _ _ => src = .client ∧ fd = .server
  | .send fd _ _ _ _ => src = .client ∨ fd = .server
  | _ => True

theorem client_or_server : ∀ src : Side, src = .client ∨ src = .server
  | .client => Or.inl rfl
  | .server => Or.inr rfl

/-- A side that is being read is still to come. -/
theorem not_turned {t : Tunnel} {src : Side} {client server : Revents}
    (position : t.position = .recv src client server) : ¬ Turned src t := by
  rw [Turned, position]
  rintro ⟨first, second⟩
  cases first.symm.trans second

theorem turned_next {src fd : Side} (turn : src = .client ∨ fd = .server) (t : Tunnel)
    (client server : Revents) : Turned src (t.next fd client server) := by
  rcases next_cases t fd client server with ⟨first, same⟩ | ⟨-, same⟩ | ⟨-, same⟩
  · rw [same]
    refine ⟨turn.resolve_right ?_, rfl⟩
    rw [first]
    decide
  · rw [same]
    trivial
  · rw [same]
    trivial

theorem turned_sent {src fd : Side} {t : Tunnel} {client server : Revents}
    {bytes_read total_sent : Nat} (position : t.position = .send fd client server bytes_read total_sent)
    (turned : Turned src t) (outcome : SendOutcome) :
    Turned src (t.sent fd client server bytes_read total_sent outcome) := by
  have turn := turned
  rw [Turned, position] at turn
  rcases send_cases outcome (bytes_read - total_sent) with
    ⟨unsent, again⟩ | ⟨unsent, failed⟩ | ⟨m, some_bytes, -, took⟩
  · rw [sent_again unsent again]
    exact turned
  · rw [sent_failed unsent failed]
    exact turned_next turn _ client server
  · rw [sent_took some_bytes took]
    split
    · exact turn
    · exact turned_next turn _ client server

theorem turned_received {src fd : Side} {t : Tunnel} {client server : Revents}
    (position : t.position = .recv fd client server) (turned : Turned src t) (outcome : RecvOutcome) :
    Turned src (t.received fd client server outcome) := by
  rw [Turned, position] at turned
  cases outcome with
  | data segment => exact Or.inl turned.1
  | closed => exact turned_next (Or.inl turned.1) _ client server
  | failed errno => exact turned_next (Or.inl turned.1) _ client server

theorem next_ends {t : Tunnel} (up : ∃ fd, t.closed fd = true) (src : Side)
    (client server : Revents) : (t.next src client server).position ≠ .poll := by
  rcases next_cases t src client server with ⟨-, same⟩ | ⟨-, same⟩ | ⟨goes_on, -⟩
  · rw [same]
    exact nofun
  · rw [same]
    exact nofun
  · exact absurd (Or.inr (Or.inr up)) goes_on

/-- Once a flag is up the loop polls no more. -/
theorem ends_step {t t' : Tunnel} {answer : TunnelAnswer} (stepped : t.step answer = some t')
    {fd : Side} (up : t.closed fd = true) (ready : t.position ≠ .poll) : t'.position ≠ .poll := by
  rcases step_cases stepped with ⟨p, position, -, -⟩ | ⟨src, client, server, outcome, -, -, rfl⟩ |
    ⟨src, client, server, bytes_read, total_sent, outcome, -, -, rfl⟩
  · exact absurd position ready
  · have ended : ((t.close src).next src client server).position ≠ .poll :=
      next_ends ⟨fd, by simp [up]⟩ src client server
    cases outcome with
    | data segment => exact nofun
    | closed => exact ended
    | failed errno => exact ended
  · rcases send_cases outcome (bytes_read - total_sent) with
      ⟨unsent, again⟩ | ⟨unsent, failed⟩ | ⟨m, some_bytes, -, took⟩
    · rw [sent_again unsent again]
      exact ready
    · rw [sent_failed unsent failed]
      exact next_ends ⟨fd, by simp [up]⟩ src client server
    · rw [sent_took some_bytes took]
      split
      · exact nofun
      · refine next_ends ?_ src client server
        exact ⟨fd, up⟩

theorem ways_polled (t : Tunnel) (p : Poll) : (t.polled p).ways = t.ways := by
  cases p with
  | failed => rfl
  | timeout => rfl
  | ready client server => exact ways_checkClient t client server

/-- A send leaves alone what was received. -/
theorem received_sent (t : Tunnel) (src fd : Side) (client server : Revents)
    (bytes_read total_sent : Nat) (outcome : SendOutcome) :
    ((t.sent fd client server bytes_read total_sent outcome).ways src).received =
      (t.ways src).received := by
  have passed (cells : List Cell) : ((t.pass fd cells).ways src).received =
      (t.ways src).received := by
    by_cases same : src = fd
    · rw [same, ways_pass]
    · rw [ways_pass_of_ne same]
  rcases send_cases outcome (bytes_read - total_sent) with
    ⟨unsent, again⟩ | ⟨unsent, failed⟩ | ⟨m, some_bytes, -, took⟩
  · rw [sent_again unsent again]
  · rw [sent_failed unsent failed, ways_next]
    by_cases same : src = fd
    · rw [same, ways_fail]
    · rw [ways_fail_of_ne same]
  · rw [sent_took some_bytes took]
    split
    · exact passed _
    · rw [ways_next, passed]

/-- A recv adds what it delivers to what its side was read. -/
theorem values_received (t : Tunnel) (src fd : Side) (client server : Revents)
    (outcome : RecvOutcome) :
    values ((t.received fd client server outcome).ways src).received =
      values (t.ways src).received ++ if src = fd then outcome.bytes else [] := by
  cases outcome with
  | closed => simp [received, RecvOutcome.bytes]
  | failed errno => simp [received, RecvOutcome.bytes]
  | data segment =>
    change values ((t.arrive fd segment).ways src).received = _
    by_cases same : src = fd
    · subst same
      simp [values, RecvOutcome.bytes, Function.comp_def]
    · rw [ways_arrive_of_ne same, if_neg same, List.append_nil]

end Tunnel

/-! ## A side that closes -/

/-- A tunnel and the receive queue of one of its sides; `gone` says that this side has closed. -/
structure Closing where
  tunnel : Tunnel
  unread : Bytes
  gone : Bool

namespace Closing

/-- What happens next: the side writes or closes, or a call of the tunnel is answered. -/
inductive Event where
  | write (data : Bytes)
  | close
  | poll (p : Poll)
  | recv (fd : Side) (outcome : RecvOutcome)
  | send (outcome : SendOutcome)

def start (buffer : Buffer) : Closing := ⟨.start buffer, [], false⟩

/-- What a recv on the side leaves unread. It delivers from the front of the queue. It returns 0 at
the end only, and an error other than EINTR and EAGAIN only where nothing is left. -/
def take (s : Closing) : RecvOutcome → Option Bytes
  | .data segment =>
    if segment.data <+: s.unread then some (s.unread.drop segment.data.length) else none
  | .closed => if s.gone = true ∧ s.unread = [] then some [] else none
  | .failed errno => if errno = .other ∧ s.unread ≠ [] then none else some s.unread

def answer (s : Closing) (a : TunnelAnswer) : Option Closing :=
  (s.tunnel.step a).map (fun t => { s with tunnel := t })

def step (src : Side) (s : Closing) : Event → Option Closing
  | .write data =>
    if s.gone || s.tunnel.ended then none else some { s with unread := s.unread ++ data }
  | .close => if s.tunnel.ended then none else some { s with gone := true }
  | .poll p => s.answer (.poll p)
  | .send outcome => s.answer (.send outcome)
  | .recv fd outcome =>
    if s.tunnel.reading = some fd then
      if fd = src then
        (s.take outcome).bind (fun unread => { s with unread }.answer (.recv outcome))
      else s.answer (.recv outcome)
    else none

abbrev run (src : Side) (s : Closing) (events : List Event) : Option Closing :=
  Runs.run (step src) s events

/-- All that the side writes. -/
def wrote (events : List Event) : Bytes :=
  events.flatMap (fun
    | .write data => data
    | _ => [])

def IsPoll : Event → Prop
  | .poll _ => True
  | _ => False

/-- The events after the last poll, where it reports something, and what was unread then. -/
structure LastPass (src : Side) (buffer : Buffer) (events pass : List Event) (left : Bytes) : Prop where
  polled : ∃ before client server s, events = before ++ .poll (.ready client server) :: pass ∧
    run src (start buffer) before = some s ∧ s.unread = left
  last : ∀ e ∈ pass, ¬ IsPoll e

/-- Nothing is to be read in this pass, or one recv takes all of it. -/
def TakesAll (src : Side) (pass : List Event) (left : Bytes) : Prop :=
  left ++ wrote pass = [] ∨ ∃ segment, .recv src (.data segment) ∈ pass ∧
    segment.data = left ++ wrote pass

/-- What an event does, and when it can happen. -/
theorem step_cases {src : Side} {s s' : Closing} {e : Event} (h : step src s e = some s') :
    (∃ data, e = .write data ∧ s' = { s with unread := s.unread ++ data }) ∨
      (e = .close ∧ s' = { s with gone := true }) ∨
      (∃ p t, e = .poll p ∧ s.tunnel.step (.poll p) = some t ∧ s' = { s with tunnel := t }) ∨
      (∃ outcome t, e = .send outcome ∧ s.tunnel.step (.send outcome) = some t ∧
        s' = { s with tunnel := t }) ∨
      (∃ fd outcome t, e = .recv fd outcome ∧ s.tunnel.reading = some fd ∧ fd ≠ src ∧
        s.tunnel.step (.recv outcome) = some t ∧ s' = { s with tunnel := t }) ∨
      ∃ outcome unread t, e = .recv src outcome ∧ s.tunnel.reading = some src ∧
        s.take outcome = some unread ∧ s.tunnel.step (.recv outcome) = some t ∧
        s' = { s with tunnel := t, unread } := by
  cases e with
  | write data =>
    rw [step] at h
    split at h
    · cases h
    · exact Or.inl ⟨data, rfl, (Option.some.inj h).symm⟩
  | close =>
    rw [step] at h
    split at h
    · cases h
    · exact Or.inr (Or.inl ⟨rfl, (Option.some.inj h).symm⟩)
  | poll p =>
    obtain ⟨t, stepped, rfl⟩ := Option.map_eq_some_iff.mp h
    exact Or.inr (Or.inr (Or.inl ⟨p, t, rfl, stepped, rfl⟩))
  | send outcome =>
    obtain ⟨t, stepped, rfl⟩ := Option.map_eq_some_iff.mp h
    exact Or.inr (Or.inr (Or.inr (Or.inl ⟨outcome, t, rfl, stepped, rfl⟩)))
  | recv fd outcome =>
    rw [step] at h
    split at h
    · rename_i reads
      split at h
      · rename_i own
        subst own
        obtain ⟨unread, taken, rest⟩ := Option.bind_eq_some_iff.mp h
        obtain ⟨t, stepped, rfl⟩ := Option.map_eq_some_iff.mp rest
        exact Or.inr (Or.inr (Or.inr (Or.inr (Or.inr
          ⟨outcome, unread, t, rfl, reads, taken, stepped, rfl⟩))))
      · rename_i other
        obtain ⟨t, stepped, rfl⟩ := Option.map_eq_some_iff.mp h
        exact Or.inr (Or.inr (Or.inr (Or.inr (Or.inl ⟨fd, outcome, t, rfl, reads, other, stepped,
          rfl⟩))))
    · cases h

/-! The runs of the tunnel are those with a side that closes. -/

/-- The call of the tunnel that an event answers, if any. -/
def answers : Event → List TunnelAnswer
  | .write _ => []
  | .close => []
  | .poll p => [.poll p]
  | .recv _ outcome => [.recv outcome]
  | .send outcome => [.send outcome]

/-- A run with a side that closes is a run of its tunnel. -/
theorem answers_run {src : Side} {s s' : Closing} {events : List Event}
    (ran : run src s events = some s') :
    s.tunnel.run (events.flatMap answers) = some s'.tunnel := by
  refine Runs.maps tunnel answers (fun s e s' stepped => ?_) ran
  rcases step_cases stepped with ⟨data, rfl, rfl⟩ | ⟨rfl, rfl⟩ | ⟨p, t, rfl, called, rfl⟩ |
    ⟨outcome, t, rfl, called, rfl⟩ | ⟨fd, outcome, t, rfl, -, -, called, rfl⟩ |
    ⟨outcome, unread, t, rfl, -, -, called, rfl⟩
  · rfl
  · rfl
  · exact (Runs.run_single _ _).trans called
  · exact (Runs.run_single _ _).trans called
  · exact (Runs.run_single _ _).trans called
  · exact (Runs.run_single _ _).trans called

theorem step_recv {src : Side} {s : Closing} {t : Tunnel} {outcome : RecvOutcome} {unread : Bytes}
    (reads : s.tunnel.reading = some src) (taken : s.take outcome = some unread)
    (called : s.tunnel.step (.recv outcome) = some t) :
    step src s (.recv src outcome) = some ⟨t, unread, s.gone⟩ := by
  simp only [step, if_pos reads, if_true, taken, Option.bind_some, answer, called, Option.map_some]

theorem step_recv_other {src fd : Side} {s : Closing} {t : Tunnel} {outcome : RecvOutcome}
    (reads : s.tunnel.reading = some fd) (other : fd ≠ src)
    (called : s.tunnel.step (.recv outcome) = some t) :
    step src s (.recv fd outcome) = some { s with tunnel := t } := by
  simp only [step, if_pos reads, if_neg other, answer, called, Option.map_some]

/-- All that was written is read, and a side that has closed is not read again. -/
structure Drained (src : Side) (s : Closing) : Prop where
  unread : s.unread = []
  closed : s.gone = true → s.tunnel.closed src = true ∧ s.tunnel.position ≠ .poll ∧
    s.tunnel.Turned src

/-- What a recv on the side delivers can be written just before, and the side closes before a recv
that returns 0. -/
theorem drained_recv {src : Side} {s : Closing} {client server : Revents} {outcome : RecvOutcome}
    {t : Tunnel} (h : Drained src s) (position : s.tunnel.position = .recv src client server)
    (called : s.tunnel.step (.recv outcome) = some t) :
    ∃ events s', run src s events = some s' ∧ s'.tunnel = t ∧
      events.flatMap answers = [.recv outcome] ∧ Drained src s' := by
  have reads : s.tunnel.reading = some src := by rw [Tunnel.reading, position]
  have going : s.tunnel.ended = false := by rw [Tunnel.ended, position]
  have stays : s.gone = false := by
    cases gone : s.gone with
    | false => rfl
    | true => exact absurd (h.closed gone).2.2 (Tunnel.not_turned position)
  have drained : Drained src ⟨t, [], false⟩ := ⟨rfl, nofun⟩
  cases outcome with
  | data segment =>
    let s₁ : Closing := { s with unread := segment.data }
    have written : step src s (.write segment.data) = some s₁ := by
      simp [step, stays, going, h.unread, s₁]
    have taken : s₁.take (.data segment) = some [] := by
      rw [take, if_pos (List.prefix_refl _), List.drop_length]
    refine ⟨[.write segment.data, .recv src (.data segment)], ⟨t, [], false⟩, ?_, rfl, rfl, drained⟩
    rw [run, Runs.run_cons, written, Option.bind_some, Runs.run_single,
      step_recv (s := s₁) reads taken called, stays]
  | closed =>
    let s₁ : Closing := { s with gone := true }
    have closed : step src s .close = some s₁ := by simp [step, going, s₁]
    have taken : s₁.take .closed = some [] := by rw [take, if_pos ⟨rfl, h.unread⟩]
    refine ⟨[.close, .recv src .closed], ⟨t, [], true⟩, ?_, rfl, rfl, rfl, fun _ => ?_⟩
    · rw [run, Runs.run_cons, closed, Option.bind_some, Runs.run_single,
        step_recv (s := s₁) reads taken called]
    · obtain ⟨client', server', position', same⟩ := Tunnel.read_of_reading reads called
      change t = (s.tunnel.close src).next src client' server' at same
      rw [same]
      have up : (s.tunnel.close src).closed src = true := by simp
      exact ⟨by simp, Tunnel.next_ends ⟨src, up⟩ src client' server',
        Tunnel.turned_next (Tunnel.client_or_server src) _ client' server'⟩
  | failed errno =>
    have taken : s.take (.failed errno) = some [] := by simp [take, h.unread]
    refine ⟨[.recv src (.failed errno)], ⟨t, [], false⟩, ?_, rfl, rfl, drained⟩
    rw [run, Runs.run_single, step_recv reads taken called, stays]

theorem drained_step {src : Side} {s : Closing} {a : TunnelAnswer} {t : Tunnel}
    (h : Drained src s) (called : s.tunnel.step a = some t) :
    ∃ events s', run src s events = some s' ∧ s'.tunnel = t ∧ events.flatMap answers = [a] ∧
      Drained src s' := by
  have onward (turned : s.tunnel.Turned src → t.Turned src) : Drained src { s with tunnel := t } := by
    refine ⟨h.unread, fun gone => ?_⟩
    obtain ⟨up, ready, turn⟩ := h.closed gone
    exact ⟨Tunnel.closed_step called up, Tunnel.ends_step called up ready, turned turn⟩
  rcases Tunnel.step_cases called with ⟨p, position, rfl, same⟩ |
    ⟨fd, client, server, outcome, position, rfl, same⟩ |
    ⟨fd, client, server, bytes_read, total_sent, outcome, position, rfl, same⟩
  · refine ⟨[.poll p], { s with tunnel := t }, ?_, rfl, rfl, h.unread, fun gone => ?_⟩
    · rw [run, Runs.run_single, step, answer, called, Option.map_some]
    · exact absurd position (h.closed gone).2.1
  · by_cases own : fd = src
    · subst own
      exact drained_recv h position called
    · have reads : s.tunnel.reading = some fd := by rw [Tunnel.reading, position]
      refine ⟨[.recv fd outcome], _, ?_, rfl, rfl, onward fun turned => ?_⟩
      · rw [run, Runs.run_single, step_recv_other reads own called]
      · rw [same]
        exact Tunnel.turned_received position turned outcome
  · refine ⟨[.send outcome], _, ?_, rfl, rfl, onward fun turned => ?_⟩
    · rw [run, Runs.run_single, step, answer, called, Option.map_some]
    · rw [same]
      exact Tunnel.turned_sent position turned outcome

/-- Every run of the tunnel is one with a side that closes: it writes what is read of it. -/
theorem every_run (src : Side) (buffer : Buffer) {as : List TunnelAnswer} {t : Tunnel}
    (ran : (Tunnel.start buffer).run as = some t) : ∃ events s,
      run src (start buffer) events = some s ∧ s.tunnel = t ∧ events.flatMap answers = as := by
  have kept := Runs.history (P := fun past t => ∃ events s, run src (start buffer) events = some s ∧
    s.tunnel = t ∧ events.flatMap answers = past ∧ Drained src s) ?_ ?_ ran
  · obtain ⟨events, s, ran, same, all, -⟩ := kept
    exact ⟨events, s, ran, same, all⟩
  · rintro past _ a t' ⟨events, s, ran, rfl, rfl, drained⟩ called
    obtain ⟨more, s', ran', same, own, drained'⟩ := drained_step drained called
    refine ⟨events ++ more, s', ?_, same, ?_, drained'⟩
    · have before : Runs.run (step src) (start buffer) events = some s := ran
      rw [run, Runs.run_append, before]
      exact ran'
    · rw [List.flatMap_append, own]
  · exact ⟨[], start buffer, rfl, rfl, rfl, rfl, nofun⟩

/-! What the last pass has read. -/

@[simp] theorem wrote_append (events events' : List Event) :
    wrote (events ++ events') = wrote events ++ wrote events' := List.flatMap_append

theorem lastPass_unique {src : Side} {buffer : Buffer} {events pass pass' : List Event}
    {left left' : Bytes} (h : LastPass src buffer events pass left)
    (h' : LastPass src buffer events pass' left') : pass = pass' ∧ left = left' := by
  obtain ⟨⟨before, client, server, s, same, ran, rfl⟩, last⟩ := h
  obtain ⟨⟨before', client', server', s', same', ran', rfl⟩, last'⟩ := h'
  have polls (p : Poll) : IsPoll (.poll p) := trivial
  obtain ⟨rfl, -, rfl⟩ := Runs.last_unique (polls _) (polls _) last last' (same.symm.trans same')
  cases ran.symm.trans ran'
  exact ⟨rfl, rfl⟩

theorem LastPass.concat {src : Side} {buffer : Buffer} {events pass : List Event} {left : Bytes}
    (h : LastPass src buffer events pass left) {e : Event} (other : ¬ IsPoll e) :
    LastPass src buffer (events ++ [e]) (pass ++ [e]) left := by
  obtain ⟨⟨before, client, server, s, rfl, rest⟩, last⟩ := h
  refine ⟨⟨before, client, server, s, by simp, rest⟩, fun e' mem => ?_⟩
  rcases List.mem_append.mp mem with mem | mem
  · exact last e' mem
  · rw [List.mem_singleton.mp mem]
    exact other

/-- How far the pass has read the side: not at all, or by its one recv. -/
inductive Read (src : Side) (pass : List Event) (left : Bytes) (s : Closing) : Prop where
  | nothing (unread : s.unread = left ++ wrote pass)
      (none_read : ∀ segment, Event.recv src (.data segment) ∉ pass)
  | once {segment : Segment} (turned : s.tunnel.Turned src)
      (unread : segment.data ++ s.unread = left ++ wrote pass)
      (mem : Event.recv src (.data segment) ∈ pass)
      (only : ∀ segment', Event.recv src (.data segment') ∈ pass → segment' = segment)

/-- What is not read stays so while other events happen. -/
theorem Read.concat {src : Side} {pass : List Event} {left more : Bytes} {s s' : Closing} {e : Event}
    (h : Read src pass left s) (unread : s'.unread = s.unread ++ more) (written : wrote [e] = more)
    (other : ∀ segment, e ≠ .recv src (.data segment))
    (turned : s.tunnel.Turned src → s'.tunnel.Turned src) : Read src (pass ++ [e]) left s' := by
  have earlier {segment : Segment} (mem : Event.recv src (.data segment) ∈ pass ++ [e]) :
      Event.recv src (.data segment) ∈ pass := by
    rcases List.mem_append.mp mem with mem | mem
    · exact mem
    · exact absurd (List.mem_singleton.mp mem).symm (other segment)
  cases h with
  | nothing same none_read =>
    refine .nothing ?_ (fun segment mem => none_read segment (earlier mem))
    rw [unread, same, wrote_append, written, List.append_assoc]
  | once turned' same mem only =>
    refine .once (turned turned') ?_ (List.mem_append_left _ mem)
      (fun segment' mem' => only segment' (earlier mem'))
    rw [unread, ← List.append_assoc, same, wrote_append, written, List.append_assoc]

/-- A run of the side, and what it has read of what it wrote. -/
structure Tracks (src : Side) (buffer : Buffer) (events : List Event) (s : Closing) : Prop where
  ran : run src (start buffer) events = some s
  sound : s.tunnel.Sound
  whole : Tunnel.values (s.tunnel.ways src).received ++ s.unread = wrote events
  reads : s.tunnel.position ≠ .poll → s.tunnel.position ≠ .done false →
    ∃ pass left, LastPass src buffer events pass left ∧ Read src pass left s

/-- A recv delivers from the front of what is unread. -/
theorem take_split {s : Closing} {outcome : RecvOutcome} {unread : Bytes}
    (taken : s.take outcome = some unread) : outcome.bytes ++ unread = s.unread := by
  cases outcome with
  | data segment =>
    rw [take] at taken
    split at taken
    · rename_i front
      obtain ⟨back, same⟩ := front
      cases taken
      rw [← same, List.drop_left]
      rfl
    · cases taken
  | closed =>
    rw [take] at taken
    split at taken
    · rename_i nothing
      cases taken
      exact nothing.2.symm
    · cases taken
  | failed errno =>
    rw [take] at taken
    split at taken
    · cases taken
    · cases taken
      rfl

theorem tracks_step {src : Side} {buffer : Buffer} {past : List Event} {s s' : Closing} {e : Event}
    (h : Tracks src buffer past s) (stepped : step src s e = some s') :
    Tracks src buffer (past ++ [e]) s' := by
  have ran : run src (start buffer) (past ++ [e]) = some s' := by
    have before : Runs.run (step src) (start buffer) past = some s := h.ran
    rw [run, Runs.run_append, before, Option.bind_some, Runs.run_single, stepped]
  have whole := h.whole
  rcases step_cases stepped with ⟨data, rfl, rfl⟩ | ⟨rfl, rfl⟩ | ⟨p, t, rfl, called, rfl⟩ |
    ⟨outcome, t, rfl, called, rfl⟩ | ⟨fd, outcome, t, rfl, reads, other, called, rfl⟩ |
    ⟨outcome, unread, t, rfl, reads, taken, called, rfl⟩
  · refine ⟨ran, h.sound, ?_, fun ready alive => ?_⟩
    · rw [wrote_append, ← whole, List.append_assoc]
      simp [wrote]
    · obtain ⟨pass, left, last, read⟩ := h.reads ready alive
      exact ⟨_, left, last.concat id, read.concat rfl (by simp [wrote]) (fun _ e => by cases e) id⟩
  · refine ⟨ran, h.sound, ?_, fun ready alive => ?_⟩
    · rw [wrote_append, ← whole]
      simp [wrote]
    · obtain ⟨pass, left, last, read⟩ := h.reads ready alive
      exact ⟨_, left, last.concat id, read.concat (List.append_nil _).symm rfl
        (fun _ e => by cases e) id⟩
  · have sound := Tunnel.sound_step _ _ _ h.sound called
    rcases Tunnel.step_cases called with ⟨p', position, same, rfl⟩ | ⟨_, _, _, _, _, same, -⟩ |
      ⟨_, _, _, _, _, _, _, same, -⟩
    · cases same
      refine ⟨ran, sound, ?_, fun ready alive => ?_⟩
      · rw [wrote_append, ← whole, Tunnel.ways_polled]
        simp [wrote]
      · cases p with
        | failed => exact absurd rfl alive
        | timeout => exact absurd position ready
        | ready client server =>
          refine ⟨[], s.unread, ⟨⟨past, client, server, s, rfl, h.ran, rfl⟩, by simp⟩, ?_⟩
          exact .nothing (List.append_nil _).symm (by simp)
    · cases same
    · cases same
  · have sound := Tunnel.sound_step _ _ _ h.sound called
    rcases Tunnel.step_cases called with ⟨_, _, same, -⟩ | ⟨_, _, _, _, _, same, -⟩ |
      ⟨fd, client, server, bytes_read, total_sent, outcome', position, same, rfl⟩
    · cases same
    · cases same
    · cases same
      refine ⟨ran, sound, ?_, fun _ _ => ?_⟩
      · rw [wrote_append, ← whole, Tunnel.received_sent]
        simp [wrote]
      · obtain ⟨pass, left, last, read⟩ := h.reads (by simp [position]) (by simp [position])
        exact ⟨_, left, last.concat id, read.concat (List.append_nil _).symm rfl
          (fun _ e => by cases e) (fun turned => Tunnel.turned_sent position turned outcome)⟩
  · have sound := Tunnel.sound_step _ _ _ h.sound called
    obtain ⟨client, server, position, rfl⟩ := Tunnel.read_of_reading reads called
    refine ⟨ran, sound, ?_, fun _ _ => ?_⟩
    · rw [wrote_append, ← whole, Tunnel.values_received, if_neg (Ne.symm other)]
      simp [wrote]
    · obtain ⟨pass, left, last, read⟩ := h.reads (by simp [position]) (by simp [position])
      refine ⟨_, left, last.concat id, read.concat (List.append_nil _).symm rfl ?_
        (fun turned => Tunnel.turned_received position turned outcome)⟩
      intro segment e
      cases e
      exact other rfl
  · have sound := Tunnel.sound_step _ _ _ h.sound called
    obtain ⟨client, server, position, rfl⟩ := Tunnel.read_of_reading reads called
    have split := take_split taken
    refine ⟨ran, sound, ?_, fun _ _ => ?_⟩
    · rw [wrote_append, ← whole, Tunnel.values_received, if_pos rfl, List.append_assoc, split]
      simp [wrote]
    · obtain ⟨pass, left, last, read⟩ := h.reads (by simp [position]) (by simp [position])
      have unturned := Tunnel.not_turned position
      refine ⟨_, left, last.concat id, ?_⟩
      cases read with
      | once turned _ _ _ => exact absurd turned unturned
      | nothing same none_read =>
        have unchanged (nothing : outcome.bytes = []) : unread = s.unread ++ [] := by
          rw [List.append_nil, ← split, nothing, List.nil_append]
        cases outcome with
        | closed =>
          exact (Read.nothing same none_read).concat (unchanged rfl) rfl (fun _ e => by cases e)
            (fun turned => absurd turned unturned)
        | failed errno =>
          exact (Read.nothing same none_read).concat (unchanged rfl) rfl (fun _ e => by cases e)
            (fun turned => absurd turned unturned)
        | data segment =>
          refine .once ?_ ?_ (List.mem_append_right _ List.mem_cons_self) ?_
          · exact Tunnel.client_or_server src
          · rw [wrote_append, ← List.append_assoc, ← same, ← split]
            exact (List.append_nil _).symm
          · intro segment' mem
            rcases List.mem_append.mp mem with mem | mem
            · exact absurd mem (none_read segment')
            · cases List.mem_singleton.mp mem
              rfl

theorem tracks_run {src : Side} {buffer : Buffer} {events : List Event} {s : Closing}
    (ran : run src (start buffer) events = some s) : Tracks src buffer events s := by
  refine Runs.history (P := Tracks src buffer) (fun _ _ _ _ h stepped => tracks_step h stepped) ?_ ran
  exact ⟨rfl, Tunnel.sound_start buffer, rfl, fun ready => absurd rfl ready⟩

/-- When the tunnel returns true, all that the closing side wrote is forwarded exactly if in the
last pass of the loop nothing was to be read, or its one recv took all of it. -/
theorem forwarded_iff (src : Side) (buffer : Buffer) (events : List Event) (s : Closing)
    (ran : run src (start buffer) events = some s) (returned : s.tunnel.position = .done true)
    (succeeded : (s.tunnel.ways src).failed = false) :
    Tunnel.values (s.tunnel.ways src).sent = wrote events ↔
      ∃ pass left, LastPass src buffer events pass left ∧ TakesAll src pass left := by
  have h := tracks_run ran
  obtain ⟨pass, left, last, read⟩ := h.reads (by simp [returned]) (by simp [returned])
  have sent : (s.tunnel.ways src).received = (s.tunnel.ways src).sent := by
    have whole := (h.sound.flows src).whole succeeded
    rwa [Tunnel.unsent, returned, List.append_nil] at whole
  rw [← sent, ← h.whole, List.self_eq_append_right]
  constructor
  · intro nothing
    refine ⟨pass, left, last, ?_⟩
    cases read with
    | nothing same none_read => exact Or.inl (same.symm.trans nothing)
    | once turned same mem only =>
      rw [nothing, List.append_nil] at same
      exact Or.inr ⟨_, mem, same⟩
  · rintro ⟨pass', left', last', takes⟩
    obtain ⟨rfl, rfl⟩ := lastPass_unique last last'
    cases read with
    | nothing same none_read =>
      rcases takes with nothing | ⟨segment, mem, -⟩
      · rw [same, nothing]
      · exact absurd mem (none_read segment)
    | once turned same mem only =>
      rcases takes with nothing | ⟨segment, mem', all⟩
      · rw [nothing] at same
        exact (List.append_eq_nil_iff.mp same).2
      · rw [← all, only segment mem', List.append_right_eq_self] at same
        exact same

/-! A client that writes and hangs up. -/

/-- `front` is what one recv takes of what the client wrote. -/
def hangup (front : Segment) (back : Bytes) : List Event :=
  [.write (front.data ++ back), .close,
    .poll (.ready ⟨true, false, true, false⟩ ⟨false, false, false, false⟩),
    .recv .client (.data front), .send ⟨front.data.length, .other⟩]

theorem hangup_run (buffer : Buffer) (front : Segment) (back : Bytes) : ∃ s,
    run .client (start buffer) (hangup front back) = some s ∧ s.tunnel.position = .done true ∧
      s.gone = true ∧ (s.tunnel.ways .client).failed = false ∧
      Tunnel.values (s.tunnel.ways .client).sent = front.data := by
  let client : Revents := ⟨true, false, true, false⟩
  let server : Revents := ⟨false, false, false, false⟩
  let t : Tunnel := (Tunnel.start buffer).received .client client server (.data front)
  let cells : List Cell := (t.buffer.cells.drop 0).take front.data.length
  have room : min (front.data.length : Int) ((front.data.length - 0 : Nat) : Int) =
      front.data.length := by simp
  have some_bytes := List.length_pos_iff.mpr front.some_bytes
  have sent : t.sent .client client server front.data.length 0 ⟨front.data.length, .other⟩ =
      { t.pass .client cells with position := .done true } := by
    rw [Tunnel.sent_took some_bytes room, if_neg (by omega)]
    rfl
  have recvd : step .client ⟨{ Tunnel.start buffer with position := .recv .client client server },
      front.data ++ back, true⟩ (.recv .client (.data front)) = some ⟨t, back, true⟩ := by
    refine step_recv rfl ?_ rfl
    rw [take, if_pos (List.prefix_append _ _), List.drop_left]
  have last : step .client ⟨t, back, true⟩ (.send ⟨front.data.length, .other⟩) =
      some ⟨{ t.pass .client cells with position := .done true }, back, true⟩ := by
    rw [← sent]
    rfl
  have first : run .client (start buffer) (hangup front back) =
      run .client ⟨{ Tunnel.start buffer with position := .recv .client client server },
        front.data ++ back, true⟩
        [.recv .client (.data front), .send ⟨front.data.length, .other⟩] := rfl
  refine ⟨⟨{ t.pass .client cells with position := .done true }, back, true⟩, ?_, rfl, rfl, ?_, ?_⟩
  · rw [first, run, Runs.run_cons, recvd, Option.bind_some, Runs.run_single, last]
  · change ((t.pass .client cells).ways .client).failed = false
    rw [Tunnel.ways_pass]
    rfl
  · change Tunnel.values ((t.pass .client cells).ways .client).sent = front.data
    have front_cells : cells = front.data.map (fun c => (some .client, c)) :=
      buffer.front_fill .client front
    rw [Tunnel.ways_pass, front_cells]
    simp [t, Tunnel.values, Tunnel.received, Tunnel.arrive, Tunnel.setWay, Tunnel.start,
      Function.comp_def]

/-- A whole buffer of zeros. -/
def full : Segment := ⟨List.replicate BUFFER_SIZE 0, by simp, by simp⟩

theorem forwarded_iff_full : ∃ s, run .client (start .blank) (hangup full []) = some s ∧
    (Tunnel.values (s.tunnel.ways .client).sent = wrote (hangup full []) ↔
      ∃ pass left, LastPass .client .blank (hangup full []) pass left ∧
        TakesAll .client pass left) := by
  obtain ⟨s, ran, returned, -, succeeded, -⟩ := hangup_run .blank full []
  exact ⟨s, ran, forwarded_iff .client .blank _ s ran returned succeeded⟩

/-- The byte behind a whole buffer is lost at a hangup. -/
theorem not_always_forwarded : ¬ ∀ (src : Side) (buffer : Buffer) (events : List Event)
    (s : Closing), run src (start buffer) events = some s → s.tunnel.position = .done true →
    s.gone = true → (s.tunnel.ways src).failed = false →
    Tunnel.values (s.tunnel.ways src).sent = wrote events := by
  intro all
  obtain ⟨s, ran, returned, gone, succeeded, sent⟩ := hangup_run .blank full [0]
  have forwarded := all .client .blank _ s ran returned gone succeeded
  have written : wrote (hangup full [0]) = full.data ++ [0] := by simp [wrote, hangup]
  rw [sent, written, List.self_eq_append_right] at forwarded
  cases forwarded

end Closing

end CachingProxy
