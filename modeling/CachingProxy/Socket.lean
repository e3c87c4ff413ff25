import CachingProxy.Cache.Basic
import CachingProxy.Cpp.Action
import CachingProxy.Cpp.Number

/-! The sockets of one connection and what passes through them.
The kernel's answers to recv, send and poll are lists that the calls consume in order; a call
that finds its list empty is still waiting. A handler is a function on this state, which also
keeps the connect calls made and the entries put into the cache. -/
namespace CachingProxy
open Cpp

abbrev BUFFER_SIZE : Nat := 8192

inductive Errno where
  | EINTR
  | EAGAIN
  | other
  deriving DecidableEq

/-- What one successful recv delivers. -/
structure Segment where
  data : Bytes
  some_bytes : data ≠ []
  fits : data.length ≤ BUFFER_SIZE
  deriving DecidableEq

inductive RecvOutcome where
  | data (segment : Segment)
  | closed
  | failed (errno : Errno)
  deriving DecidableEq

/-- The value of one send and errno after it; more than was offered counts as all of it. -/
structure SendOutcome where
  sent : Int
  errno : Errno
  deriving DecidableEq

structure Revents where
  pollin : Bool
  pollerr : Bool
  pollhup : Bool
  pollnval : Bool
  deriving DecidableEq

inductive Poll where
  | failed
  | timeout
  | ready (client server : Revents)
  deriving DecidableEq

/-- Where bytes written to a socket come from: the other socket, or one message made here. -/
inductive Source where
  | peer
  | own (message : Bytes)
  deriving DecidableEq

/-- One end of a connection: the answers to come, what was written to it, what was read. -/
structure Peer where
  sends : List SendOutcome
  recvs : List RecvOutcome
  written : List (Source × Bytes)
  received : Bytes

inductive Side where
  | client
  | server
  deriving DecidableEq

/-- An IPv4 address. -/
abbrev Address := UInt32

structure World where
  client : Peer
  server : Peer
  polls : List Poll
  dialled : List (Address × UInt16)
  puts : List (Bytes × CacheEntry)

abbrev Handling := Action World

namespace World

def peer (w : World) : Side → Peer
  | .client => w.client
  | .server => w.server

def setPeer (w : World) (fd : Side) (p : Peer) : World :=
  match fd with
  | .client => { w with client := p }
  | .server => { w with server := p }

/-- After a sendAll that got `accepted` through. -/
def sent (w : World) (fd : Side) (source : Source) (accepted : Bytes) (left : List SendOutcome) :
    World :=
  w.setPeer fd { w.peer fd with
    sends := left
    written := (w.peer fd).written ++ [(source, accepted)] }

/-- After a recv that delivered `data`. -/
def got (w : World) (fd : Side) (data : Bytes) (left : List RecvOutcome) : World :=
  w.setPeer fd { w.peer fd with recvs := left, received := (w.peer fd).received ++ data }

end World

def Peer.bytes (p : Peer) : Bytes := (p.written.map Prod.snd).flatten

def RecvOutcome.bytes : RecvOutcome → Bytes
  | .data segment => segment.data
  | _ => []

/-! ## recv -/

/-- The answer `outcome` of a recv, before the answers `left`. -/
def recvd (fd : Side) (outcome : RecvOutcome) (left : List RecvOutcome) : Handling Unit :=
  modify (fun w => w.got fd outcome.bytes left)

def recv (fd : Side) : Handling RecvOutcome := do
  match ((← get).peer fd).recvs with
  | [] => Action.wait
  | outcome :: left =>
    recvd fd outcome left
    return outcome

/-! ## sendAll -/

structure Sent where
  result : Option Bool
  accepted : Bytes
  sends : List SendOutcome

/-- The loop of sendAll; without a result it waits in send. -/
def sendLoop (data : Bytes) (total_sent : Nat) (sends : List SendOutcome) : Sent :=
  if total_sent < data.length then
    match sends with
    | [] => ⟨none, [], []⟩
    | outcome :: sends =>
      let sent := min outcome.sent ((data.length - total_sent : Nat) : Int)
      if sent ≤ 0 then
        if outcome.errno = .EINTR then sendLoop data total_sent sends
        else ⟨some false, [], sends⟩
      else
        let rest := sendLoop data (total_sent + sent.toNat) sends
        { rest with accepted := (data.drop total_sent).take sent.toNat ++ rest.accepted }
  else ⟨some true, [], sends⟩

def sendAll (fd : Side) (source : Source) (data : Bytes) : Handling Bool := fun w =>
  let r := sendLoop data 0 (w.peer fd).sends
  match r.result with
  | some ok => .ok ok (w.sent fd source r.accepted r.sends)
  | none => .error .waiting (w.sent fd source r.accepted r.sends)

/-! ## TcpSocket -/

/-- What lies behind socket(2), gethostbyname and connect(2). -/
structure Network where
  socket : Except Exception Nat
  gethostbyname : Bytes → Option Address
  connect : Address → UInt16 → Bool

def htons (port : Int32) : UInt16 := UInt16.ofNat (port.toInt % 2 ^ 16).toNat

def TcpSocket.connect (network : Network) (host : Bytes) (port : Int32) : Handling Bool := do
  match network.gethostbyname (c_str host) with
  | none => return false
  | some address =>
    modify (fun w => { w with dialled := w.dialled ++ [(address, htons port)] })
    return network.connect address (htons port)

theorem htons_toNat (port : Int32) : ((htons port).toNat : Int) = port.toInt % 2 ^ 16 := by
  have range := Int.emod_lt_of_pos port.toInt (by decide : (0 : Int) < 2 ^ 16)
  have positive := Int.emod_nonneg port.toInt (by decide : (2 ^ 16 : Int) ≠ 0)
  have size : UInt16.size = 2 ^ 16 := rfl
  rw [htons, UInt16.toNat_ofNat_of_lt' (by omega)]
  omega

/-! ## What sendAll does -/

/-- How a send of `left` bytes can go: it is to be made again, it fails, or it takes some. -/
theorem send_cases (outcome : SendOutcome) (left : Nat) :
    (min outcome.sent (left : Int) ≤ 0 ∧ outcome.errno = .EINTR) ∨
      (min outcome.sent (left : Int) ≤ 0 ∧ outcome.errno ≠ .EINTR) ∨
      ∃ m : Nat, 0 < m ∧ m ≤ left ∧ min outcome.sent (left : Int) = m := by
  by_cases unsent : min outcome.sent (left : Int) ≤ 0
  · by_cases again : outcome.errno = .EINTR
    · exact Or.inl ⟨unsent, again⟩
    · exact Or.inr (Or.inl ⟨unsent, again⟩)
  · have room := Int.min_le_right outcome.sent (left : Int)
    exact Or.inr (Or.inr ⟨(min outcome.sent (left : Int)).toNat, by omega, by omega, by omega⟩)

section SendLoop

variable {data : Bytes} {total_sent : Nat} {outcome : SendOutcome} {sends : List SendOutcome}

theorem sendLoop_done (done : data.length ≤ total_sent) :
    sendLoop data total_sent sends = ⟨some true, [], sends⟩ := by
  unfold sendLoop
  rw [if_neg (Nat.not_lt.mpr done)]

theorem sendLoop_nil (more : total_sent < data.length) :
    sendLoop data total_sent [] = ⟨none, [], []⟩ := by
  unfold sendLoop
  rw [if_pos more]

theorem sendLoop_again (more : total_sent < data.length)
    (unsent : min outcome.sent ((data.length - total_sent : Nat) : Int) ≤ 0)
    (again : outcome.errno = .EINTR) :
    sendLoop data total_sent (outcome :: sends) = sendLoop data total_sent sends := by
  conv => lhs; unfold sendLoop
  simp only [if_pos more, if_pos unsent, if_pos again]

theorem sendLoop_failed (more : total_sent < data.length)
    (unsent : min outcome.sent ((data.length - total_sent : Nat) : Int) ≤ 0)
    (failed : outcome.errno ≠ .EINTR) :
    sendLoop data total_sent (outcome :: sends) = ⟨some false, [], sends⟩ := by
  unfold sendLoop
  simp only [if_pos more, if_pos unsent, if_neg failed]

theorem sendLoop_took (more : total_sent < data.length) {m : Nat} (some_bytes : 0 < m)
    (took : min outcome.sent ((data.length - total_sent : Nat) : Int) = m) :
    sendLoop data total_sent (outcome :: sends) =
      { sendLoop data (total_sent + m) sends with
        accepted := (data.drop total_sent).take m ++
          (sendLoop data (total_sent + m) sends).accepted } := by
  conv => lhs; unfold sendLoop
  simp only [if_pos more, took, if_neg (by omega : ¬ ((m : Int) ≤ 0)), Int.toNat_natCast]

end SendLoop

/-- Whatever the kernel answers, what it took is a prefix, and all of it exactly on success. -/
theorem sendLoop_spec (data : Bytes) (total_sent : Nat) (sends : List SendOutcome)
    (inside : total_sent ≤ data.length) :
    (sendLoop data total_sent sends).accepted <+: data.drop total_sent ∧
      ((sendLoop data total_sent sends).result = some true ↔
        (sendLoop data total_sent sends).accepted = data.drop total_sent) := by
  induction sends generalizing total_sent with
  | nil =>
    rcases Nat.lt_or_ge total_sent data.length with more | done
    · have left : data.drop total_sent ≠ [] := mt List.drop_eq_nil_iff.mp (by omega)
      simpa [sendLoop_nil more] using left.symm
    · simp [sendLoop_done done, List.drop_eq_nil_of_le done]
  | cons outcome sends ih =>
    rcases Nat.lt_or_ge total_sent data.length with more | done
    · rcases send_cases outcome (data.length - total_sent) with
        ⟨unsent, again⟩ | ⟨unsent, failed⟩ | ⟨m, some_bytes, fits, took⟩
      · rw [sendLoop_again more unsent again]
        exact ih total_sent inside
      · have left : data.drop total_sent ≠ [] := mt List.drop_eq_nil_iff.mp (by omega)
        simpa [sendLoop_failed more unsent failed] using left.symm
      · rw [sendLoop_took more some_bytes took]
        obtain ⟨pre, all⟩ := ih (total_sent + m) (by omega)
        have cut : (data.drop total_sent).take m ++ data.drop (total_sent + m) =
            data.drop total_sent := by
          rw [← List.drop_drop, List.take_append_drop]
        constructor
        · have := (List.prefix_append_right_inj ((data.drop total_sent).take m)).mpr pre
          rwa [cut] at this
        · refine all.trans ⟨fun e => ?_, fun e => ?_⟩
          · rw [e, cut]
          · exact List.append_cancel_left (e.trans cut.symm)
    · simp [sendLoop_done done, List.drop_eq_nil_of_le done]

/-! ## sendAll on an endless sequence of answers

A send that is asked again without end is all that can keep sendAll from returning. -/

/-- Nothing is sent, and the call is made again. -/
def SendOutcome.Interrupted (outcome : SendOutcome) : Prop :=
  outcome.sent ≤ 0 ∧ outcome.errno = .EINTR

def upTo (answers : Nat → SendOutcome) (n : Nat) : List SendOutcome := (List.range n).map answers

theorem upTo_succ (answers : Nat → SendOutcome) (n : Nat) :
    upTo answers (n + 1) = answers 0 :: upTo (fun i => answers (i + 1)) n := by
  rw [upTo, List.range_succ_eq_map, List.map_cons, List.map_map]
  rfl

/-- Answers other than an interruption never run out. -/
def Answering (answers : Nat → SendOutcome) : Prop :=
  ∀ n, ∃ m, n ≤ m ∧ ¬ (answers m).Interrupted

theorem Answering.tail {answers : Nat → SendOutcome} (h : Answering answers) :
    Answering (fun i => answers (i + 1)) := by
  intro n
  obtain ⟨m, late, taken⟩ := h (n + 1)
  obtain ⟨m, rfl⟩ := Nat.exists_eq_add_of_le' (Nat.le_of_add_left_le late)
  exact ⟨m, Nat.le_of_succ_le_succ late, taken⟩

theorem sendLoop_returns (data : Bytes) {answers : Nat → SendOutcome} (h : Answering answers)
    (total_sent : Nat) : ∃ n ok, (sendLoop data total_sent (upTo answers n)).result = some ok := by
  induction rest : data.length - total_sent using Nat.strong_induction_on
    generalizing answers total_sent with
  | h rest' progress =>
    subst rest
    rcases Nat.lt_or_ge total_sent data.length with more | done
    · have counts {answers : Nat → SendOutcome} (h : Answering answers)
          (taken : ¬ (answers 0).Interrupted) :
          ∃ n ok, (sendLoop data total_sent (upTo answers n)).result = some ok := by
        rcases send_cases (answers 0) (data.length - total_sent) with
          ⟨unsent, again⟩ | ⟨unsent, failed⟩ | ⟨k, some_bytes, fits, took⟩
        · exact absurd ⟨by omega, again⟩ taken
        · refine ⟨1, false, ?_⟩
          rw [upTo_succ, sendLoop_failed more unsent failed]
        · obtain ⟨n, ok, returns⟩ := progress _ (by omega) h.tail (total_sent + k) rfl
          refine ⟨n + 1, ok, ?_⟩
          rw [upTo_succ, sendLoop_took more some_bytes took]
          exact returns
      -- the interruptions before the first answer that counts
      obtain ⟨m, -, taken⟩ := h 0
      induction m generalizing answers with
      | zero => exact counts h taken
      | succ m ih =>
        by_cases interrupted : (answers 0).Interrupted
        · obtain ⟨n, ok, returns⟩ := ih h.tail taken
          refine ⟨n + 1, ok, ?_⟩
          have unsent := interrupted.1
          rw [upTo_succ, sendLoop_again more (by omega) interrupted.2]
          exact returns
        · exact counts h interrupted
    · exact ⟨0, true, by rw [sendLoop_done done]⟩

/-- The kernel is about to give these answers to the sends on one side. -/
def World.answering (w : World) (fd : Side) (sends : List SendOutcome) : World :=
  w.setPeer fd { w.peer fd with sends := sends }

theorem sendAll_run (fd : Side) (source : Source) (data : Bytes) (w : World)
    (sends : List SendOutcome) :
    (sendAll fd source data).run (w.answering fd sends) =
      match (sendLoop data 0 sends).result with
      | some ok => .ok ok (w.sent fd source (sendLoop data 0 sends).accepted
          (sendLoop data 0 sends).sends)
      | none => .error .waiting (w.sent fd source (sendLoop data 0 sends).accepted
          (sendLoop data 0 sends).sends) := by
  cases fd <;> rfl

theorem bytes_after_sent (w : World) (fd : Side) (source : Source) (accepted : Bytes)
    (left : List SendOutcome) :
    ((w.sent fd source accepted left).peer fd).bytes = (w.peer fd).bytes ++ accepted := by
  cases fd <;> simp [Peer.bytes, World.sent, World.setPeer, World.peer]

/-- When sendAll returns, the socket has taken a prefix of the buffer, and all of it exactly if
it returns true. It returns unless its sends are interrupted without end. -/
theorem sendAll_exact (fd : Side) (source : Source) (data : Bytes) (w : World)
    (answers : Nat → SendOutcome) :
    (∀ n ok w', (sendAll fd source data).run (w.answering fd (upTo answers n)) = .ok ok w' →
      ∃ accepted, (w'.peer fd).bytes = (w.peer fd).bytes ++ accepted ∧ accepted <+: data ∧
        (ok = true ↔ accepted = data)) ∧
    (Answering answers → ∃ n ok w',
      (sendAll fd source data).run (w.answering fd (upTo answers n)) = .ok ok w') := by
  constructor
  · intro n ok w' run
    obtain ⟨part, all⟩ := sendLoop_spec data 0 (upTo answers n) (Nat.zero_le _)
    rw [List.drop_zero] at part all
    rw [sendAll_run] at run
    cases ended : (sendLoop data 0 (upTo answers n)).result with
    | none =>
      rw [ended] at run
      cases run
    | some ok' =>
      rw [ended] at run all
      cases run
      exact ⟨_, bytes_after_sent w fd source _ _, part, by rw [← all, Option.some.injEq]⟩
  · intro h
    obtain ⟨n, ok, returns⟩ := sendLoop_returns data h 0
    refine ⟨n, ok, w.sent fd source (sendLoop data 0 (upTo answers n)).accepted
      (sendLoop data 0 (upTo answers n)).sends, ?_⟩
    rw [sendAll_run, returns]

end CachingProxy
