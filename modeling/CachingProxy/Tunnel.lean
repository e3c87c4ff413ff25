import CachingProxy.Frame
import CachingProxy.Runs
import Mathlib.Logic.Function.Basic

/-! tunnelTraffic call by call. Both directions go through one buffer; each of its cells carries
the side that its byte came from. A run takes one answer of the kernel at a time, in any order
that the position in the loop allows. -/
namespace CachingProxy
open Cpp Action

/-- A byte and the side it was received from, if any. -/
abbrev Cell := Option Side × UInt8

structure Buffer where
  cells : List Cell
  size : cells.length = BUFFER_SIZE

def Buffer.blank : Buffer := ⟨List.replicate BUFFER_SIZE (none, 0), List.length_replicate⟩

/-- recv writes to the front of the buffer. -/
def Buffer.fill (b : Buffer) (src : Side) (segment : Segment) : Buffer where
  cells := segment.data.map (fun c => (some src, c)) ++ b.cells.drop segment.data.length
  size := by
    have fits := segment.fits
    have size := b.size
    simp only [List.length_append, List.length_map, List.length_drop]
    omega

theorem Buffer.front_fill (b : Buffer) (src : Side) (segment : Segment) :
    (b.fill src segment).cells.take segment.data.length =
      segment.data.map (fun c => (some src, c)) := List.take_left' (List.length_map ..)

/-- One direction: what recv has read, what send has taken, and whether a sendAll has failed. -/
structure Way where
  received : List Cell
  sent : List Cell
  failed : Bool

/-- The call that the handler waits in; in send it has got `total_sent` of `bytes_read` through. -/
inductive Position where
  | poll
  | recv (src : Side) (client server : Revents)
  | send (src : Side) (client server : Revents) (bytes_read total_sent : Nat)
  | done (result : Bool)

inductive TunnelAnswer where
  | poll (p : Poll)
  | recv (outcome : RecvOutcome)
  | send (outcome : SendOutcome)

def Side.other : Side → Side
  | .client => .server
  | .server => .client

@[simp] theorem Side.other_other (fd : Side) : fd.other.other = fd := by cases fd <;> rfl

theorem Side.eq_or_other (fd fd' : Side) : fd' = fd ∨ fd' = fd.other := by
  cases fd <;> cases fd' <;> decide

theorem Side.other_ne (fd : Side) : fd.other ≠ fd := by cases fd <;> decide

/-- `ways` are named after the side they come from; `closed` is client_closed and server_closed. -/
structure Tunnel where
  position : Position
  buffer : Buffer
  ways : Side → Way
  closed : Side → Bool

namespace Tunnel

def start (buffer : Buffer) : Tunnel :=
  ⟨.poll, buffer, fun _ => ⟨[], [], false⟩, fun _ => false⟩

def close (t : Tunnel) (fd : Side) : Tunnel :=
  { t with closed := Function.update t.closed fd true }

def setWay (t : Tunnel) (src : Side) (way : Way) : Tunnel :=
  { t with ways := Function.update t.ways src way }

/-- The condition of the loop. -/
def again (t : Tunnel) : Tunnel :=
  { t with position := if t.closed .client || t.closed .server then .done true else .poll }

def checkHangup (t : Tunnel) (client server : Revents) : Tunnel :=
  if client.hangup || server.hangup then { t with position := .done true } else t.again

def checkServer (t : Tunnel) (client server : Revents) : Tunnel :=
  if server.pollin then { t with position := .recv .server client server }
  else t.checkHangup client server

def checkClient (t : Tunnel) (client server : Revents) : Tunnel :=
  if client.pollin then { t with position := .recv .client client server }
  else t.checkServer client server

/-- What comes after the turn of one direction. -/
def next (t : Tunnel) (src : Side) (client server : Revents) : Tunnel :=
  match src with
  | .client => t.checkServer client server
  | .server => t.checkHangup client server

def polled (t : Tunnel) : Poll → Tunnel
  | .failed => { t with position := .done false }
  | .timeout => t
  | .ready client server => t.checkClient client server

def arrive (t : Tunnel) (src : Side) (segment : Segment) : Tunnel :=
  { t.setWay src { t.ways src with
      received := (t.ways src).received ++ segment.data.map (fun c => (some src, c)) } with
    buffer := t.buffer.fill src segment }

def received (t : Tunnel) (src : Side) (client server : Revents) : RecvOutcome → Tunnel
  | .data segment =>
    { t.arrive src segment with
      position := .send src client server segment.data.length 0 }
  | _ => (t.close src).next src client server

/-- A sendAll of this direction returns false. -/
def fail (t : Tunnel) (src : Side) : Tunnel :=
  (t.setWay src { t.ways src with failed := true }).close src.other

def pass (t : Tunnel) (src : Side) (cells : List Cell) : Tunnel :=
  t.setWay src { t.ways src with sent := (t.ways src).sent ++ cells }

/-- One pass of the loop in sendAll. -/
def sent (t : Tunnel) (src : Side) (client server : Revents) (bytes_read total_sent : Nat)
    (outcome : SendOutcome) : Tunnel :=
  let sent := min outcome.sent ((bytes_read - total_sent : Nat) : Int)
  if sent ≤ 0 then
    if outcome.errno = .EINTR then t else (t.fail src).next src client server
  else
    let t := t.pass src ((t.buffer.cells.drop total_sent).take sent.toNat)
    if total_sent + sent.toNat < bytes_read then
      { t with position := .send src client server bytes_read (total_sent + sent.toNat) }
    else t.next src client server

def step (t : Tunnel) (answer : TunnelAnswer) : Option Tunnel :=
  match t.position, answer with
  | .poll, .poll p => some (t.polled p)
  | .recv src client server, .recv outcome => some (t.received src client server outcome)
  | .send src client server bytes_read total_sent, .send outcome =>
    some (t.sent src client server bytes_read total_sent outcome)
  | _, _ => none

abbrev run (t : Tunnel) (answers : List TunnelAnswer) : Option Tunnel := Runs.run step t answers

/-! ## What each direction has passed on -/

/-- What sendAll has still to send of the bytes that recv has read. -/
def unsent (t : Tunnel) (src : Side) : List Cell :=
  match t.position with
  | .send src' _ _ bytes_read total_sent =>
    if src' = src then (t.buffer.cells.take bytes_read).drop total_sent else []
  | _ => []

/-- One direction, of which `unsent` is under way. -/
structure Flows (way : Way) (src : Side) (unsent : List Cell) : Prop where
  whole : way.failed = false → way.received = way.sent ++ unsent
  part : way.sent <+: way.received
  own : ∀ cell ∈ way.received, cell.1 = some src

/-- Where a direction has failed its far side counts as closed, and it has no more turns. -/
structure Stops (t : Tunnel) : Prop where
  closed : ∀ src, (t.ways src).failed = true → t.closed src.other = true
  live : match t.position with
    | .poll => ∀ src, (t.ways src).failed = false
    | .recv src _ _ => (t.ways src).failed = false ∧ (t.ways .server).failed = false
    | .send src _ _ bytes_read total_sent =>
      ((t.ways src).failed = false ∧ (t.ways .server).failed = false) ∧
        total_sent < bytes_read ∧ bytes_read ≤ BUFFER_SIZE
    | .done _ => True

structure Sound (t : Tunnel) : Prop where
  flows : ∀ src, Flows (t.ways src) src (t.unsent src)
  stops : Stops t

/-! ## Between the calls -/

@[simp] theorem ways_again (t : Tunnel) : t.again.ways = t.ways := rfl

@[simp] theorem ways_checkHangup (t : Tunnel) (client server : Revents) :
    (t.checkHangup client server).ways = t.ways := by
  unfold checkHangup
  split <;> rfl

@[simp] theorem ways_checkServer (t : Tunnel) (client server : Revents) :
    (t.checkServer client server).ways = t.ways := by
  unfold checkServer
  split
  · rfl
  · exact ways_checkHangup t client server

@[simp] theorem ways_checkClient (t : Tunnel) (client server : Revents) :
    (t.checkClient client server).ways = t.ways := by
  unfold checkClient
  split
  · rfl
  · exact ways_checkServer t client server

@[simp] theorem ways_next (t : Tunnel) (src : Side) (client server : Revents) :
    (t.next src client server).ways = t.ways := by
  cases src
  · exact ways_checkServer t client server
  · exact ways_checkHangup t client server

@[simp] theorem ways_close (t : Tunnel) (fd : Side) : (t.close fd).ways = t.ways := rfl

@[simp] theorem closed_close (t : Tunnel) (fd fd' : Side) :
    (t.close fd).closed fd' = (t.closed fd' || decide (fd' = fd)) := by
  by_cases same : fd' = fd <;> simp [close, same]

/-! ## What the calls change -/

@[simp] theorem ways_arrive (t : Tunnel) (src : Side) (segment : Segment) :
    (t.arrive src segment).ways src = { t.ways src with
      received := (t.ways src).received ++ segment.data.map (fun c => (some src, c)) } :=
  Function.update_self ..

@[simp] theorem ways_pass (t : Tunnel) (src : Side) (cells : List Cell) :
    (t.pass src cells).ways src = { t.ways src with sent := (t.ways src).sent ++ cells } :=
  Function.update_self ..

@[simp] theorem ways_fail (t : Tunnel) (src : Side) :
    (t.fail src).ways src = { t.ways src with failed := true } := Function.update_self ..

@[simp] theorem closed_fail (t : Tunnel) (src fd : Side) :
    (t.fail src).closed fd = (t.closed fd || decide (fd = src.other)) := closed_close ..

section OtherWay

variable {src src' : Side} (other : src' ≠ src)
include other

theorem ways_arrive_of_ne (t : Tunnel) (segment : Segment) :
    (t.arrive src segment).ways src' = t.ways src' := Function.update_of_ne other ..

theorem ways_pass_of_ne (t : Tunnel) (cells : List Cell) :
    (t.pass src cells).ways src' = t.ways src' := Function.update_of_ne other ..

theorem ways_fail_of_ne (t : Tunnel) : (t.fail src).ways src' = t.ways src' :=
  Function.update_of_ne other ..

end OtherWay

@[simp] theorem failed_arrive (t : Tunnel) (src src' : Side) (segment : Segment) :
    ((t.arrive src segment).ways src').failed = (t.ways src').failed := by
  by_cases same : src' = src
  · rw [same, ways_arrive]
  · rw [ways_arrive_of_ne same]

@[simp] theorem failed_pass (t : Tunnel) (src src' : Side) (cells : List Cell) :
    ((t.pass src cells).ways src').failed = (t.ways src').failed := by
  by_cases same : src' = src
  · rw [same, ways_pass]
  · rw [ways_pass_of_ne same]

/-- Nothing is under way. -/
structure Settled (t : Tunnel) : Prop where
  flows : ∀ src, Flows (t.ways src) src []
  closed : ∀ src, (t.ways src).failed = true → t.closed src.other = true

theorem Sound.settled {t : Tunnel} (h : Sound t) (idle : ∀ src, t.unsent src = []) : Settled t :=
  ⟨fun src => idle src ▸ h.flows src, h.stops.closed⟩

theorem sound_done {t : Tunnel} (h : Settled t) (result : Bool) :
    Sound { t with position := .done result } := ⟨h.flows, h.closed, trivial⟩

theorem sound_again {t : Tunnel} (h : Settled t) : Sound t.again := by
  unfold again
  by_cases stop : (t.closed .client || t.closed .server) = true
  · rw [if_pos stop]
    exact sound_done h true
  · rw [if_neg stop]
    refine ⟨h.flows, h.closed, ?_⟩
    simp only [Bool.or_eq_true, not_or, Bool.not_eq_true] at stop
    intro src
    by_contra failed
    have shut := h.closed src (by simpa using failed)
    cases src
    · cases stop.2.symm.trans shut
    · cases stop.1.symm.trans shut

theorem sound_checkHangup {t : Tunnel} (h : Settled t) (client server : Revents) :
    Sound (t.checkHangup client server) := by
  unfold checkHangup
  split
  · exact sound_done h true
  · exact sound_again h

theorem sound_checkServer {t : Tunnel} (h : Settled t) (live : (t.ways .server).failed = false)
    (client server : Revents) : Sound (t.checkServer client server) := by
  unfold checkServer
  split
  · exact ⟨h.flows, h.closed, live, live⟩
  · exact sound_checkHangup h client server

theorem sound_checkClient {t : Tunnel} (h : Settled t) (live : ∀ src, (t.ways src).failed = false)
    (client server : Revents) : Sound (t.checkClient client server) := by
  unfold checkClient
  split
  · exact ⟨h.flows, h.closed, live .client, live .server⟩
  · exact sound_checkServer h (live .server) client server

theorem sound_next {t : Tunnel} (h : Settled t) {src : Side}
    (live : src = .client → (t.ways .server).failed = false) (client server : Revents) :
    Sound (t.next src client server) := by
  cases src with
  | client => exact sound_checkServer h (live rfl) client server
  | server => exact sound_checkHangup h client server

theorem settled_close {t : Tunnel} (h : Settled t) (fd : Side) : Settled (t.close fd) := by
  refine ⟨h.flows, fun src failed => ?_⟩
  rw [closed_close, h.closed src failed, Bool.true_or]

/-- A sendAll of `src` has `rest` still to send. -/
structure Underway (t : Tunnel) (src : Side) (rest : List Cell) : Prop where
  flow : Flows (t.ways src) src rest
  others : ∀ src', src' ≠ src → Flows (t.ways src') src' []
  closed : ∀ src, (t.ways src).failed = true → t.closed src.other = true
  live : (t.ways src).failed = false

theorem Underway.settled {t : Tunnel} {src : Side} (h : Underway t src []) : Settled t where
  flows src' := by
    by_cases same : src' = src
    · exact same ▸ h.flow
    · exact h.others src' same
  closed := h.closed

theorem underway_arrive {t : Tunnel} (h : Settled t) {src : Side}
    (live : (t.ways src).failed = false) (segment : Segment) :
    Underway (t.arrive src segment) src (segment.data.map (fun c => (some src, c))) where
  flow := by
    obtain ⟨whole, part, own⟩ := h.flows src
    rw [ways_arrive]
    refine ⟨fun _ => by simp [whole live], part.trans (List.prefix_append _ _), ?_⟩
    intro cell mem
    rcases List.mem_append.mp mem with mem | mem
    · exact own cell mem
    · obtain ⟨c, -, rfl⟩ := List.mem_map.mp mem
      rfl
  others src' other := by
    rw [ways_arrive_of_ne other]
    exact h.flows src'
  closed src' failed := by
    rw [failed_arrive] at failed
    exact h.closed src' failed
  live := by rw [failed_arrive, live]

theorem underway_pass {t : Tunnel} {src : Side} {taken rest : List Cell}
    (h : Underway t src (taken ++ rest)) : Underway (t.pass src taken) src rest where
  flow := by
    have whole := h.flow.whole h.live
    rw [← List.append_assoc] at whole
    rw [ways_pass]
    exact ⟨fun _ => whole, ⟨rest, whole.symm⟩, h.flow.own⟩
  others src' other := by
    rw [ways_pass_of_ne other]
    exact h.others src' other
  closed src' failed := by
    rw [failed_pass] at failed
    exact h.closed src' failed
  live := by rw [failed_pass, h.live]

theorem settled_fail {t : Tunnel} {src : Side} {rest : List Cell} (h : Underway t src rest) :
    Settled (t.fail src) where
  flows src' := by
    by_cases same : src' = src
    · subst same
      rw [ways_fail]
      exact ⟨fun e => (by cases e), h.flow.part, h.flow.own⟩
    · rw [ways_fail_of_ne same]
      exact h.others src' same
  closed src' failed := by
    rw [closed_fail]
    by_cases same : src' = src
    · simp [same]
    · rw [ways_fail_of_ne same] at failed
      rw [h.closed src' failed, Bool.true_or]

theorem sound_send {t : Tunnel} {src : Side} {bytes_read total_sent : Nat}
    (h : Underway t src ((t.buffer.cells.take bytes_read).drop total_sent))
    (onward : (t.ways .server).failed = false) (more : total_sent < bytes_read)
    (fits : bytes_read ≤ BUFFER_SIZE) (client server : Revents) :
    Sound { t with position := .send src client server bytes_read total_sent } where
  flows src' := by
    unfold unsent
    by_cases same : src' = src
    · subst same
      simpa using h.flow
    · simpa [Ne.symm same] using h.others src' same
  stops := ⟨h.closed, ⟨h.live, onward⟩, more, fits⟩

theorem underway_of_sound {t : Tunnel} (h : Sound t) {src : Side} {client server : Revents}
    {bytes_read total_sent : Nat}
    (position : t.position = .send src client server bytes_read total_sent) :
    Underway t src ((t.buffer.cells.take bytes_read).drop total_sent) where
  flow := by
    have flow := h.flows src
    rw [unsent, position] at flow
    simpa using flow
  others src' other := by
    have flow := h.flows src'
    rw [unsent, position] at flow
    simpa [Ne.symm other] using flow
  closed := h.stops.closed
  live := by
    have live := h.stops.live
    rw [position] at live
    exact live.1.1

/-! ## The calls -/

theorem sound_polled {t : Tunnel} (h : Sound t) (position : t.position = .poll) (p : Poll) :
    Sound (t.polled p) := by
  have settled := h.settled (fun src => by rw [unsent, position])
  have live := h.stops.live
  rw [position] at live
  cases p with
  | failed => exact sound_done settled false
  | timeout => exact h
  | ready client server => exact sound_checkClient settled live client server

theorem sound_received {t : Tunnel} (h : Sound t) {src : Side} {client server : Revents}
    (position : t.position = .recv src client server) (outcome : RecvOutcome) :
    Sound (t.received src client server outcome) := by
  have settled := h.settled (fun src => by rw [unsent, position])
  have live := h.stops.live
  rw [position] at live
  have ended : Sound ((t.close src).next src client server) :=
    sound_next (settled_close settled src) (fun _ => live.2) client server
  cases outcome with
  | closed => exact ended
  | failed errno => exact ended
  | data segment =>
    have underway := underway_arrive settled live.1 segment
    rw [← t.buffer.front_fill] at underway
    exact sound_send underway (by rw [failed_arrive, live.2])
      (List.length_pos_iff.mpr segment.some_bytes) segment.fits client server

theorem send_front (cells : List Cell) {bytes_read total_sent sent : Nat}
    (fits : total_sent + sent ≤ bytes_read) :
    ((cells.take bytes_read).drop total_sent).take sent = (cells.drop total_sent).take sent := by
  rw [List.drop_take, List.take_take, Nat.min_eq_left (by omega)]

/-- A send takes the front of what is still to be sent. -/
theorem send_split (cells : List Cell) {bytes_read total_sent sent : Nat}
    (fits : total_sent + sent ≤ bytes_read) :
    (cells.take bytes_read).drop total_sent = (cells.drop total_sent).take sent ++
      (cells.take bytes_read).drop (total_sent + sent) := by
  rw [← send_front cells fits, ← List.drop_drop, List.take_append_drop]

section Sent

variable {t : Tunnel} {src : Side} {client server : Revents} {bytes_read total_sent : Nat}
  {outcome : SendOutcome}

theorem sent_again (unsent : min outcome.sent ((bytes_read - total_sent : Nat) : Int) ≤ 0)
    (again : outcome.errno = .EINTR) : t.sent src client server bytes_read total_sent outcome = t := by
  unfold sent
  simp only [if_pos unsent, if_pos again]

theorem sent_failed (unsent : min outcome.sent ((bytes_read - total_sent : Nat) : Int) ≤ 0)
    (failed : outcome.errno ≠ .EINTR) :
    t.sent src client server bytes_read total_sent outcome = (t.fail src).next src client server := by
  unfold sent
  simp only [if_pos unsent, if_neg failed]

theorem sent_took {m : Nat} (some_bytes : 0 < m)
    (took : min outcome.sent ((bytes_read - total_sent : Nat) : Int) = m) :
    t.sent src client server bytes_read total_sent outcome =
      if total_sent + m < bytes_read then
        { t.pass src ((t.buffer.cells.drop total_sent).take m) with
          position := .send src client server bytes_read (total_sent + m) }
      else (t.pass src ((t.buffer.cells.drop total_sent).take m)).next src client server := by
  unfold sent
  simp only [took, if_neg (by omega : ¬ ((m : Int) ≤ 0)), Int.toNat_natCast]

theorem sound_sent (h : Sound t)
    (position : t.position = .send src client server bytes_read total_sent)
    (outcome : SendOutcome) :
    Sound (t.sent src client server bytes_read total_sent outcome) := by
  have underway := underway_of_sound h position
  have live := h.stops.live
  rw [position] at live
  obtain ⟨⟨live, onward⟩, more, inside⟩ := live
  rcases send_cases outcome (bytes_read - total_sent) with
    ⟨unsent, again⟩ | ⟨unsent, failed⟩ | ⟨m, some_bytes, fits, took⟩
  · rw [sent_again unsent again]
    exact h
  · rw [sent_failed unsent failed]
    apply sound_next (settled_fail underway)
    rintro rfl
    rw [ways_fail_of_ne (by decide), onward]
  · rw [sent_took some_bytes took]
    have split := send_split t.buffer.cells (by omega : total_sent + m ≤ bytes_read)
    have passed := underway_pass (split ▸ underway)
    have onward' : ((t.pass src ((t.buffer.cells.drop total_sent).take m)).ways .server).failed =
        false := by rw [failed_pass, onward]
    split
    · exact sound_send passed onward' (by assumption) inside client server
    · have nothing : (t.buffer.cells.take bytes_read).drop (total_sent + m) = [] :=
        List.drop_eq_nil_of_le (by rw [List.length_take]; omega)
      rw [nothing] at passed
      exact sound_next passed.settled (fun _ => onward') client server

end Sent

/-- An answer is taken in the call that it is an answer to. -/
theorem step_cases {t t' : Tunnel} {answer : TunnelAnswer} (h : t.step answer = some t') :
    (∃ p, t.position = .poll ∧ answer = .poll p ∧ t' = t.polled p) ∨
      (∃ src client server outcome, t.position = .recv src client server ∧
        answer = .recv outcome ∧ t' = t.received src client server outcome) ∨
      ∃ src client server bytes_read total_sent outcome,
        t.position = .send src client server bytes_read total_sent ∧ answer = .send outcome ∧
        t' = t.sent src client server bytes_read total_sent outcome := by
  unfold step at h
  split at h
  · rename_i p position
    exact Or.inl ⟨p, position, rfl, (Option.some.inj h).symm⟩
  · rename_i src client server outcome position
    exact Or.inr (Or.inl ⟨src, client, server, outcome, position, rfl, (Option.some.inj h).symm⟩)
  · rename_i src client server bytes_read total_sent outcome position
    exact Or.inr (Or.inr ⟨src, client, server, bytes_read, total_sent, outcome, position, rfl,
      (Option.some.inj h).symm⟩)
  · cases h

theorem sound_start (buffer : Buffer) : Sound (start buffer) where
  flows _ := ⟨fun _ => rfl, List.prefix_refl _, by simp [start]⟩
  stops := by
    refine ⟨fun _ failed => ?_, fun _ => rfl⟩
    cases failed

theorem sound_step (t : Tunnel) (answer : TunnelAnswer) (t' : Tunnel) (h : Sound t)
    (stepped : t.step answer = some t') : Sound t' := by
  rcases step_cases stepped with ⟨p, position, -, rfl⟩ | ⟨src, client, server, outcome, position,
    -, rfl⟩ | ⟨src, client, server, bytes_read, total_sent, outcome, position, -, rfl⟩
  · exact sound_polled h position p
  · exact sound_received h position outcome
  · exact sound_sent h position outcome

theorem sound_run {t t' : Tunnel} (h : Sound t) {answers : List TunnelAnswer}
    (ran : t.run answers = some t') : Sound t' :=
  Runs.always sound_step h ran

/-- A direction that has failed is left as it is. -/
theorem failed_step {t t' : Tunnel} {answer : TunnelAnswer} (h : Sound t) {src : Side}
    (failed : (t.ways src).failed = true) (stepped : t.step answer = some t') :
    t'.ways src = t.ways src := by
  have live := h.stops.live
  rcases step_cases stepped with ⟨p, position, -, rfl⟩ | ⟨src', client, server, outcome, position,
    -, rfl⟩ | ⟨src', client, server, bytes_read, total_sent, outcome, position, -, rfl⟩
  · cases p with
    | failed => rfl
    | timeout => rfl
    | ready client server => exact congrFun (ways_checkClient t client server) src
  · rw [position] at live
    have other : src ≠ src' := by
      rintro rfl
      cases failed.symm.trans live.1
    cases outcome with
    | closed => exact congrFun (ways_next (t.close src') src' client server) src
    | failed errno => exact congrFun (ways_next (t.close src') src' client server) src
    | data segment => exact ways_arrive_of_ne other t segment
  · rw [position] at live
    have other : src ≠ src' := by
      rintro rfl
      cases failed.symm.trans live.1.1
    rcases send_cases outcome (bytes_read - total_sent) with
      ⟨unsent, again⟩ | ⟨unsent, broken⟩ | ⟨m, some_bytes, -, took⟩
    · rw [sent_again unsent again]
    · rw [sent_failed unsent broken, ways_next, ways_fail_of_ne other]
    · rw [sent_took some_bytes took]
      split
      · exact ways_pass_of_ne other t _
      · rw [ways_next, ways_pass_of_ne other]

theorem failed_run {t t' : Tunnel} (h : Sound t) {src : Side} (failed : (t.ways src).failed = true)
    {answers : List TunnelAnswer} (ran : t.run answers = some t') : t'.ways src = t.ways src := by
  have kept := Runs.always (P := fun t' => Sound t' ∧ t'.ways src = t.ways src) ?_ ⟨h, rfl⟩ ran
  · exact kept.2
  · rintro t₁ answer t₂ ⟨sound, same⟩ stepped
    have again : (t₁.ways src).failed = true := by rw [same, failed]
    exact ⟨sound_step _ _ _ sound stepped, (failed_step sound again stepped).trans same⟩

/-- A sendAll of this direction is under way. -/
def sending (t : Tunnel) (src : Side) : Prop :=
  ∃ client server bytes_read total_sent,
    t.position = .send src client server bytes_read total_sent

/-- At every moment of a tunnel each direction has sent a prefix of what it received, all of it
between two of its sendAll calls unless one has failed; then it sends no more. What it received and
sends comes from its own side. -/
theorem tunnel_integrity (buffer : Buffer) (answers : List TunnelAnswer) (t : Tunnel)
    (ran : (start buffer).run answers = some t) (src : Side) :
    (t.ways src).sent <+: (t.ways src).received ∧
      ((t.ways src).failed = false → ¬ t.sending src → (t.ways src).sent = (t.ways src).received) ∧
      ((t.ways src).failed = true → ∀ more t', t.run more = some t' → t'.ways src = t.ways src) ∧
      ∀ cell ∈ (t.ways src).sent, cell.1 = some src := by
  have sound := sound_run (sound_start buffer) ran
  obtain ⟨whole, part, own⟩ := sound.flows src
  refine ⟨part, ?_, fun failed more t' ran' => failed_run sound failed ran', ?_⟩
  · intro live idle
    have nothing : t.unsent src = [] := by
      unfold unsent
      split
      · rename_i src' client server bytes_read total_sent position
        by_cases same : src' = src
        · subst same
          exact absurd ⟨client, server, bytes_read, total_sent, position⟩ idle
        · rw [if_neg same]
      · rfl
    rw [whole live, nothing, List.append_nil]
  · exact fun cell mem => own cell (part.subset mem)

/-- The client sends two bytes, of which the server takes one. -/
def half_taken : List TunnelAnswer :=
  [.poll (.ready ⟨true, false, false, false⟩ ⟨false, false, false, false⟩),
    .recv (.data ⟨[1, 2], by decide, by decide⟩), .send ⟨1, .other⟩]

theorem tunnel_integrity_half : ∃ t, (start .blank).run half_taken = some t ∧
    (t.ways .client).sent <+: (t.ways .client).received ∧
    (t.ways .client).sent ≠ (t.ways .client).received :=
  ⟨_, rfl, (tunnel_integrity .blank half_taken _ rfl .client).1, by decide⟩

/-! ## The function

tunnelTraffic, which takes its answers from the lists of the state, makes one of these runs. -/

def values (cells : List Cell) : Bytes := cells.map Prod.snd

/-- From `w₀` to `w` the sockets have seen what the tunnel has read and sent. -/
structure Mirrors (w₀ w : World) (t : Tunnel) : Prop where
  received : ∀ src, (w.peer src).received =
    (w₀.peer src).received ++ values (t.ways src).received
  sent : ∀ src, (w.peer src.other).bytes =
    (w₀.peer src.other).bytes ++ values (t.ways src).sent

/-- The calls of the function from `t` on, as far as it gets, are a run of the tunnel. -/
def Follows (w₀ : World) (t : Tunnel) (r : EStateM.Result Cpp.Stop World Bool) : Prop :=
  ∃ answers u, t.run answers = some u ∧
    match r with
    | .ok result w => Mirrors w₀ w u ∧ u.position = .done result
    | .error _ w => Mirrors w₀ w u

theorem follows_run {w₀ : World} {t t' : Tunnel} {r : EStateM.Result Cpp.Stop World Bool}
    {answers : List TunnelAnswer} (ran : t.run answers = some t') (h : Follows w₀ t' r) :
    Follows w₀ t r := by
  obtain ⟨more, u, rest, ends⟩ := h
  refine ⟨answers ++ more, u, ?_, ends⟩
  have first : Runs.run step t answers = some t' := ran
  rw [run, Runs.run_append, first]
  exact rest

theorem sent_peer (w : World) (src : Side) (accepted : Bytes) (left : List SendOutcome) :
    (∀ fd, ((w.sent src.other .peer accepted left).peer fd).received = (w.peer fd).received) ∧
      ((w.sent src.other .peer accepted left).peer src.other).bytes =
        (w.peer src.other).bytes ++ accepted ∧
      ((w.sent src.other .peer accepted left).peer src).bytes = (w.peer src).bytes := by
  refine ⟨?_, ?_, ?_⟩
  · intro fd
    cases src <;> cases fd <;> rfl
  · cases src <;> simp [World.sent, World.setPeer, World.peer, Peer.bytes, Side.other]
  · cases src <;> rfl

theorem got_peer (w : World) (src : Side) (data : Bytes) (left : List RecvOutcome) :
    (∀ fd, ((w.got src data left).peer fd).bytes = (w.peer fd).bytes) ∧
      ((w.got src data left).peer src).received = (w.peer src).received ++ data ∧
      ((w.got src data left).peer src.other).received = (w.peer src.other).received := by
  refine ⟨?_, ?_, ?_⟩
  · intro fd
    cases src <;> cases fd <;> rfl
  · cases src <;> rfl
  · cases src <;> rfl

/-- sendAll as a part of a run; without a result it waits in send. -/
theorem sendLoop_run {src : Side} {client server : Revents} (data : Bytes)
    (sends : List SendOutcome) {total_sent : Nat} {t : Tunnel}
    (position : t.position = .send src client server data.length total_sent)
    (holds : values (t.buffer.cells.take data.length) = data) (more : total_sent < data.length) :
    ∃ answers u, (u.ways src).received = (t.ways src).received ∧
      values (u.ways src).sent =
        values (t.ways src).sent ++ (sendLoop data total_sent sends).accepted ∧
      u.ways src.other = t.ways src.other ∧
      match (sendLoop data total_sent sends).result with
      | none => t.run answers = some u
      | some ok => t.run answers = some (u.next src client server) ∧
          u.closed src = t.closed src ∧ u.closed src.other = (t.closed src.other || !ok) := by
  have far := src.other_ne
  induction sends generalizing total_sent t with
  | nil =>
    rw [sendLoop_nil more]
    exact ⟨[], t, rfl, (List.append_nil _).symm, rfl, rfl⟩
  | cons outcome sends ih =>
    have first (answers : List TunnelAnswer) : t.run (.send outcome :: answers) =
        (t.sent src client server data.length total_sent outcome).run answers := by
      have one : t.step (.send outcome) =
          some (t.sent src client server data.length total_sent outcome) := by
        unfold step
        rw [position]
      rw [run, Runs.run_cons, one]
      rfl
    rcases send_cases outcome (data.length - total_sent) with
      ⟨unsent, again⟩ | ⟨unsent, failed⟩ | ⟨m, some_bytes, fits, took⟩
    · obtain ⟨answers, u, received, sent, other, ends⟩ := ih position holds more
      refine ⟨.send outcome :: answers, u, received, ?_, other, ?_⟩
      · rw [sendLoop_again more unsent again]
        exact sent
      · rw [sendLoop_again more unsent again]
        simp only [first, sent_again unsent again]
        exact ends
    · rw [sendLoop_failed more unsent failed]
      refine ⟨[.send outcome], t.fail src, by rw [ways_fail], ?_, ways_fail_of_ne far t, ?_, ?_, ?_⟩
      · rw [ways_fail]
        exact (List.append_nil _).symm
      · rw [first, sent_failed unsent failed]
        rfl
      · simp [Ne.symm far]
      · simp
    · rw [sendLoop_took more some_bytes took]
      let u := t.pass src ((t.buffer.cells.drop total_sent).take m)
      have taken : values ((t.buffer.cells.drop total_sent).take m) =
          (data.drop total_sent).take m := by
        rw [← send_front t.buffer.cells (by omega : total_sent + m ≤ data.length)]
        conv => rhs; rw [← holds]
        simp [values, List.map_take, List.map_drop]
      have sent_u : values (u.ways src).sent =
          values (t.ways src).sent ++ (data.drop total_sent).take m := by
        rw [ways_pass, ← taken]
        exact List.map_append
      have received_u : (u.ways src).received = (t.ways src).received := by
        rw [ways_pass]
      have other_u : u.ways src.other = t.ways src.other := ways_pass_of_ne far t _
      rcases Nat.lt_or_ge (total_sent + m) data.length with further | all
      · obtain ⟨answers, v, received, sent, other, ends⟩ := ih
          (t := { u with position := .send src client server data.length (total_sent + m) })
          rfl holds further
        refine ⟨.send outcome :: answers, v, received.trans received_u, ?_,
          other.trans other_u, ?_⟩
        · rw [sent, ← List.append_assoc]
          exact congrArg (· ++ _) sent_u
        · simp only [first, sent_took some_bytes took, if_pos further]
          exact ends
      · rw [sendLoop_done all]
        refine ⟨[.send outcome], u, received_u, ?_, other_u, ?_, rfl, (Bool.or_false _).symm⟩
        · rw [sent_u, List.append_nil]
        · rw [first, sent_took some_bytes took, if_neg (Nat.not_lt.mpr all)]
          rfl

theorem mirrors_got {w₀ w : World} {t u : Tunnel} {src : Side} {data : Bytes}
    (h : Mirrors w₀ w t) (left : List RecvOutcome)
    (received : values (u.ways src).received = values (t.ways src).received ++ data)
    (sent : (u.ways src).sent = (t.ways src).sent) (other : u.ways src.other = t.ways src.other) :
    Mirrors w₀ (w.got src data left) u := by
  obtain ⟨bytes, own, far⟩ := got_peer w src data left
  constructor
  · intro src'
    rcases src.eq_or_other src' with rfl | rfl
    · rw [own, received, h.received src', List.append_assoc]
    · rw [far, other]
      exact h.received src.other
  · intro src'
    rw [bytes, h.sent src']
    rcases src.eq_or_other src' with rfl | rfl
    · rw [sent]
    · rw [other]

theorem mirrors_sent {w₀ w : World} {t u : Tunnel} {src : Side} {accepted : Bytes}
    (h : Mirrors w₀ w t) (left : List SendOutcome)
    (received : (u.ways src).received = (t.ways src).received)
    (sent : values (u.ways src).sent = values (t.ways src).sent ++ accepted)
    (other : u.ways src.other = t.ways src.other) :
    Mirrors w₀ (w.sent src.other .peer accepted left) u := by
  obtain ⟨read, own, far⟩ := sent_peer w src accepted left
  constructor
  · intro src'
    rw [read, h.received src']
    rcases src.eq_or_other src' with rfl | rfl
    · rw [received]
    · rw [other]
  · intro src'
    rcases src.eq_or_other src' with rfl | rfl
    · rw [own, sent, h.sent src', List.append_assoc]
    · have back := h.sent src.other
      rw [Side.other_other] at back ⊢
      rw [far, other]
      exact back

theorem recv_run {w : World} {fd : Side} {outcome : RecvOutcome} {left : List RecvOutcome}
    (recvs : (w.peer fd).recvs = outcome :: left) :
    (recv fd).run w = .ok outcome (w.got fd outcome.bytes left) := by
  unfold recv
  rw [bind_of_ok (run_get w), recvs]
  rfl

theorem recv_waits {w : World} {fd : Side} (recvs : (w.peer fd).recvs = []) :
    (recv fd).run w = .error .waiting w := by
  unfold recv
  rw [bind_of_ok (run_get w), recvs]
  rfl

/-- The turn of one direction, before whatever comes after it. -/
theorem tunnelStep_follows {w₀ w : World} {t : Tunnel} {src : Side} {client server : Revents}
    {k : Bool × Bool → Handling Bool} (position : t.position = .recv src client server)
    (h : Mirrors w₀ w t)
    (rest : ∀ u w' closed gone, Mirrors w₀ w' u → u.closed src = (t.closed src || closed) →
      u.closed src.other = (t.closed src.other || gone) →
      Follows w₀ (u.next src client server) ((k (closed, gone)).run w')) :
    Follows w₀ t ((tunnelStep src src.other >>= k).run w) := by
  have far := src.other_ne
  unfold tunnelStep
  rw [bind_assoc]
  cases recvs : (w.peer src).recvs with
  | nil =>
    rw [bind_of_error (recv_waits recvs)]
    exact ⟨[], t, rfl, h⟩
  | cons outcome left =>
    have taken : t.run [.recv outcome] = some (t.received src client server outcome) := by
      rw [run, Runs.run_single]
      unfold step
      rw [position]
    have ended : outcome.bytes = [] → Follows w₀ ((t.close src).next src client server)
        ((k (true, false)).run (w.got src outcome.bytes left)) := by
      intro nothing
      apply rest (t.close src)
      · refine mirrors_got h left ?_ rfl rfl
        rw [nothing, List.append_nil, ways_close]
      · simp
      · simp [far]
    rw [bind_of_ok (recv_run recvs)]
    apply follows_run taken
    cases outcome with
    | closed => exact ended rfl
    | failed errno => exact ended rfl
    | data segment =>
      let u := t.received src client server (.data segment)
      have got : Mirrors w₀ (w.got src segment.data left) u := by
        have way : u.ways src = { t.ways src with
            received := (t.ways src).received ++ segment.data.map (fun c => (some src, c)) } :=
          ways_arrive t src segment
        refine mirrors_got h left ?_ ?_ (ways_arrive_of_ne far t segment)
        · simp [way, values, Function.comp_def]
        · rw [way]
      have holds : values (u.buffer.cells.take segment.data.length) = segment.data := by
        have front := t.buffer.front_fill src segment
        change values ((t.buffer.fill src segment).cells.take segment.data.length) = _
        rw [front]
        simp [values, Function.comp_def]
      obtain ⟨answers, v, received_v, sent_v, other_v, ends⟩ :=
        sendLoop_run segment.data ((w.got src segment.data left).peer src.other).sends (t := u)
          rfl holds (List.length_pos_iff.mpr segment.some_bytes)
      have passed (sends : List SendOutcome) := mirrors_sent got sends received_v sent_v other_v
      have outer : u.closed = t.closed := rfl
      dsimp only [RecvOutcome.bytes]
      rw [bind_assoc]
      generalize hr : sendLoop segment.data 0 ((w.got src segment.data left).peer src.other).sends
        = r at ends passed
      obtain ⟨result, accepted, sends⟩ := r
      cases result with
      | none =>
        have waits : (sendAll src.other .peer segment.data).run (w.got src segment.data left) =
            .error .waiting ((w.got src segment.data left).sent src.other .peer accepted sends) := by
          unfold sendAll EStateM.run
          simp only [hr]
        rw [bind_of_error waits]
        exact ⟨answers, v, ends, passed sends⟩
      | some ok =>
        have returns : (sendAll src.other .peer segment.data).run (w.got src segment.data left) =
            .ok ok ((w.got src segment.data left).sent src.other .peer accepted sends) := by
          unfold sendAll EStateM.run
          simp only [hr]
        rw [bind_of_ok returns]
        obtain ⟨ran, own, gone⟩ := ends
        apply follows_run ran
        apply rest v _ false (!ok) (passed sends)
        · rw [own, outer, Bool.or_false]
        · rw [gone, outer]

theorem turn_follows (src : Side) {w₀ w : World} {t : Tunnel} {client server : Revents} {p : Bool}
    {k : Bool × Bool → Handling Bool} (h : Mirrors w₀ w t)
    (rest : ∀ u w' closed gone, Mirrors w₀ w' u → u.closed src = (t.closed src || closed) →
      u.closed src.other = (t.closed src.other || gone) →
      Follows w₀ (u.next src client server) ((k (closed, gone)).run w')) :
    Follows w₀ (if p then { t with position := .recv src client server }
        else t.next src client server)
      ((if p then tunnelStep src src.other >>= k else pure (false, false) >>= k).run w) := by
  cases p with
  | true =>
    rw [if_pos rfl, if_pos rfl]
    exact tunnelStep_follows (t := { t with position := .recv src client server }) rfl
      ⟨h.received, h.sent⟩ rest
  | false =>
    rw [if_neg (by decide), if_neg (by decide), pure_bind]
    exact rest t w false false h (Bool.or_false _).symm (Bool.or_false _).symm

theorem tunnelLoop_follows {w₀ w : World} {t : Tunnel} (polls : List Poll) (h : Mirrors w₀ w t) :
    Follows w₀ t.again
      ((tunnelLoop (t.closed .client) (t.closed .server) polls).run w) := by
  induction polls generalizing w t with
  | nil =>
    unfold tunnelLoop again
    by_cases stop : (t.closed .client || t.closed .server) = true
    · rw [if_pos stop, if_pos stop]
      exact ⟨[], _, rfl, ⟨h.received, h.sent⟩, rfl⟩
    · rw [if_neg stop, if_neg stop]
      exact ⟨[], _, rfl, h.received, h.sent⟩
  | cons poll polls ih =>
    unfold tunnelLoop again
    by_cases stop : (t.closed .client || t.closed .server) = true
    · rw [if_pos stop, if_pos stop]
      exact ⟨[], _, rfl, ⟨h.received, h.sent⟩, rfl⟩
    rw [if_neg stop, if_neg stop]
    simp only [Bool.or_eq_true, not_or, Bool.not_eq_true] at stop
    have still : t.again = { t with position := .poll } := by
      rw [again, stop.1, stop.2]
      rfl
    have polling (p : Poll) : run { t with position := .poll } [.poll p] =
        some (polled { t with position := .poll } p) := Runs.run_single _ _
    apply follows_run (polling poll)
    have unpolled : Mirrors w₀ { w with polls := polls } t := by
      refine ⟨fun src => ?_, fun src => ?_⟩
      · cases src
        · exact h.received .client
        · exact h.received .server
      · cases src
        · exact h.sent .client
        · exact h.sent .server
    dsimp only
    rw [bind_of_ok (run_modify _ w)]
    cases poll with
    | failed => exact ⟨[], _, rfl, ⟨unpolled.received, unpolled.sent⟩, rfl⟩
    | timeout =>
      have loop := ih unpolled
      rw [stop.1, stop.2, still] at loop
      exact loop
    | ready client server =>
      apply turn_follows .client
      · exact ⟨unpolled.received, unpolled.sent⟩
      intro u w₁ client_closed server_gone h₁ client_end server_end
      apply turn_follows .server h₁
      intro v w₂ server_closed client_gone h₂ server_end' client_end'
      simp only [Side.other, stop.1, stop.2, Bool.false_or] at client_end server_end
      simp only [Side.other, client_end, server_end] at server_end' client_end'
      have loop := ih h₂
      rw [client_end', server_end', Bool.or_comm server_gone] at loop
      unfold next checkHangup
      dsimp only
      by_cases hangup : (client.hangup || server.hangup) = true
      · rw [if_pos hangup, if_pos hangup]
        exact ⟨[], _, rfl, ⟨h₂.received, h₂.sent⟩, rfl⟩
      · rw [if_neg hangup, if_neg hangup]
        exact loop

theorem start_mirrors (w : World) (buffer : Buffer) : Mirrors w w (start buffer) :=
  ⟨fun _ => (List.append_nil _).symm, fun _ => (List.append_nil _).symm⟩

/-- Whatever the kernel answers, tunnelTraffic makes the calls of a run of the tunnel, reads and
sends what that run does, and returns what it ends with. -/
theorem tunnelTraffic_follows (w : World) (buffer : Buffer) :
    Follows w (start buffer) (tunnelTraffic.run w) := by
  unfold tunnelTraffic
  rw [bind_of_ok (run_get w)]
  exact tunnelLoop_follows w.polls (start_mirrors w buffer)

/-- However tunnelTraffic ends, each side has been sent a prefix of what the other was read. -/
theorem tunnelTraffic_passes (w : World) (src : Side) : ∃ read sent : Bytes, sent <+: read ∧
    ((tunnelTraffic.after w).peer src).received = (w.peer src).received ++ read ∧
    ((tunnelTraffic.after w).peer src.other).bytes = (w.peer src.other).bytes ++ sent := by
  obtain ⟨answers, t, ran, ends⟩ := tunnelTraffic_follows w .blank
  have flow := (sound_run (sound_start .blank) ran).flows src
  have mirrors : Mirrors w (tunnelTraffic.after w) t := by
    unfold Action.after
    cases hr : tunnelTraffic.run w with
    | ok result w' =>
      rw [hr] at ends
      exact ends.1
    | error e w' =>
      rw [hr] at ends
      exact ends
  exact ⟨_, _, flow.part.map Prod.snd, mirrors.received src, mirrors.sent src⟩

end Tunnel

end CachingProxy
