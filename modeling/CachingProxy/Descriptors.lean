import CachingProxy.Cpp.DescriptorTable
import CachingProxy.Runs
import Mathlib.Logic.Function.Basic

/-! Who closes which descriptor: the accept loop of main, handle_connection in any number of
threads and the reference counts of the TcpSocket objects they share.
The references are those of the loop variable (of the value accept returns, until it is
assigned), of ThreadData and of the handler's local copy. The parameters of
create_connection_thread hold one more while the loop variable holds its own, so they are
never the last. A server socket has one owner and is closed where forwardRequest leaves. -/
namespace CachingProxy.Descriptors
open Posix

/-- What an open descriptor belongs to; `client c` is the c-th accepted connection. -/
inductive Owner where
  | other
  | client (c : Nat)
  | origin (c : Nat)
  deriving DecidableEq

/-- Where the thread of a connection is in handle_connection. -/
inductive Position where
  | absent
  | starting
  | reading (client_fd : Option Nat)
  | processing (server_fd : Option Nat)
  | leaving
  | returning
  | gone
  deriving DecidableEq

inductive Main where
  | accepting
  | assigning (result : Option Nat)
  | creating (c : Nat)
  deriving DecidableEq

structure Socket where
  socket_fd_ : Option Nat
  refs : Nat

/-- An executed close: on whose behalf, on which number, and what that number designated. -/
structure Close where
  owner : Owner
  fd : Nat
  hit : Option Owner
  deriving DecidableEq

structure State where
  table : Table Owner
  accepted : Nat
  sockets : Nat → Socket
  client_socket : Option Nat
  main : Main
  handlers : Nat → Position
  closes : List Close

/-- `reserved` descriptors are open before the loop: standard streams, log and listener. -/
def start (reserved : Nat) : State where
  table := List.replicate reserved (some .other)
  accepted := 0
  sockets := fun _ => ⟨none, 0⟩
  client_socket := none
  main := .accepting
  handlers := fun _ => .absent
  closes := []

inductive Action where
  | accept
  | acceptFail
  | assign
  | createThread
  | createThreadFail
  | copySocket (c : Nat)
  | recvNothing (c : Nat)
  | parseFail (c : Nat)
  | parseOk (c : Nat)
  | openServer (c : Nat)
  | openServerThrow (c : Nat)
  | closeServer (c : Nat)
  | finish (c : Nat)
  | deleteData (c : Nat)
  | returnNull (c : Nat)
  deriving DecidableEq

/-- ::close(fd) -/
def State.closeFd (s : State) (o : Owner) (fd : Nat) : State :=
  { s with table := close s.table fd, closes := ⟨o, fd, designates s.table fd⟩ :: s.closes }

def State.setRefs (s : State) (c refs : Nat) : State :=
  { s with sockets := Function.update s.sockets c ⟨(s.sockets c).socket_fd_, refs⟩ }

def State.retain (s : State) (c : Nat) : State := s.setRefs c ((s.sockets c).refs + 1)

/-- ~TcpSocket, that is TcpSocket::close -/
def State.destroy (s : State) (c : Nat) : State :=
  match (s.sockets c).socket_fd_ with
  | none => s
  | some fd => ({ s with sockets := Function.update s.sockets c ⟨none, 0⟩ }).closeFd (.client c) fd

def State.release (s : State) (c : Nat) : State :=
  if (s.sockets c).refs = 1 then s.destroy c else s.setRefs c ((s.sockets c).refs - 1)

def State.releaseAll (s : State) : Option Nat → State
  | none => s
  | some c => s.release c

def State.moveTo (s : State) (c : Nat) (p : Position) : State :=
  { s with handlers := Function.update s.handlers c p }

/-- close(client_fd) on an early exit; close(-1) does nothing. -/
def State.closeRaw (s : State) (c : Nat) : Option Nat → State
  | none => s
  | some fd => s.closeFd (.client c) fd

def State.install (s : State) (o : Owner) : State := { s with table := Posix.install s.table o }

def step (s : State) : Action → Option State
  | .accept => if s.main = .accepting then
      let s' := s.install (.client s.accepted)
      some { s' with
        accepted := s.accepted + 1
        sockets := Function.update s.sockets s.accepted ⟨some (lowest s.table), 1⟩
        main := .assigning (some s.accepted) } else none
  | .acceptFail => if s.main = .accepting then some { s with main := .assigning none } else none
  | .assign => match s.main with
    | .assigning (some c) =>
      some (({ s with client_socket := some c, main := .creating c }).releaseAll s.client_socket)
    | .assigning none =>
      some (({ s with client_socket := none, main := .accepting }).releaseAll s.client_socket)
    | _ => none
  | .createThread => match s.main with
    | .creating c => some (({ s with main := .accepting }).retain c |>.moveTo c .starting)
    | _ => none
  | .createThreadFail => match s.main with
    | .creating _ => some { s with main := .accepting }
    | _ => none
  | .copySocket c => if s.handlers c = .starting then
      some ((s.retain c).moveTo c (.reading (s.sockets c).socket_fd_)) else none
  | .recvNothing c | .parseFail c => match s.handlers c with
    | .reading client_fd => some ((s.closeRaw c client_fd).moveTo c .leaving)
    | _ => none
  | .parseOk c => match s.handlers c with
    | .reading _ => some (s.moveTo c (.processing none))
    | _ => none
  | .openServer c => if s.handlers c = .processing none then
      some ((s.install (.origin c)).moveTo c (.processing (some (lowest s.table)))) else none
  | .openServerThrow c => if s.handlers c = .processing none then
      some ((s.install (.origin c)).moveTo c .leaving) else none
  | .closeServer c => match s.handlers c with
    | .processing (some fd) => some ((s.closeFd (.origin c) fd).moveTo c .leaving)
    | _ => none
  | .finish c => if s.handlers c = .processing none then some (s.moveTo c .leaving) else none
  | .deleteData c => if s.handlers c = .leaving then
      some ((s.release c).moveTo c .returning) else none
  | .returnNull c => if s.handlers c = .returning then some ((s.release c).moveTo c .gone) else none

def run (s : State) (actions : List Action) : Option State := Runs.run step s actions

/-- The exits of handle_connection that close the descriptor themselves. -/
def Action.earlyExit : Action → Option Nat
  | .recvNothing c | .parseFail c => some c
  | _ => none

def State.closesOf (s : State) (c : Nat) : Nat := s.closes.countP (fun x => x.owner = .client c)

/-- Every close hit its own descriptor, and no connection was closed twice. -/
def Safe (s : State) : Prop :=
  (∀ x ∈ s.closes, x.hit = some x.owner) ∧ ∀ c, s.closesOf c ≤ 1

/-! ## What the helpers leave alone -/

section fields

variable (s : State) (c : Nat)

@[simp] theorem setRefs_table (n : Nat) : (s.setRefs c n).table = s.table := rfl
@[simp] theorem setRefs_closesOf (n c' : Nat) : (s.setRefs c n).closesOf c' = s.closesOf c' := rfl

theorem release_fields : (s.release c).handlers = s.handlers ∧ (s.release c).main = s.main ∧
    (s.release c).client_socket = s.client_socket ∧ (s.release c).accepted = s.accepted := by
  unfold State.release State.destroy
  split
  · split <;> exact ⟨rfl, rfl, rfl, rfl⟩
  · exact ⟨rfl, rfl, rfl, rfl⟩

@[simp] theorem release_handlers : (s.release c).handlers = s.handlers := (release_fields s c).1
@[simp] theorem release_main : (s.release c).main = s.main := (release_fields s c).2.1
@[simp] theorem release_client_socket : (s.release c).client_socket = s.client_socket :=
  (release_fields s c).2.2.1
@[simp] theorem release_accepted : (s.release c).accepted = s.accepted := (release_fields s c).2.2.2

end fields

/-! ## Runs without early exits -/

structure Owned (s : State) : Prop where
  clients : ∀ c fd, (s.sockets c).socket_fd_ = some fd → designates s.table fd = some (.client c)
  servers : ∀ c fd, s.handlers c = .processing (some fd) →
    designates s.table fd = some (.origin c)
  hits : ∀ x ∈ s.closes, x.hit = some x.owner
  once : ∀ c, s.closesOf c + (if (s.sockets c).socket_fd_ = none then 0 else 1) ≤ 1
  fresh : ∀ c, s.accepted ≤ c → (s.sockets c).socket_fd_ = none ∧ s.closesOf c = 0

theorem owned_start (reserved : Nat) : Owned (start reserved) where
  clients c fd h := by cases h
  servers c fd h := by cases h
  hits x h := by cases h
  once c := by simp [start, State.closesOf]
  fresh c _ := ⟨rfl, rfl⟩

theorem owned_setRefs {s : State} (h : Owned s) (c n : Nat) : Owned (s.setRefs c n) := by
  have same : ∀ c', ((s.setRefs c n).sockets c').socket_fd_ = (s.sockets c').socket_fd_ := by
    intro c'
    by_cases e : c' = c
    · subst e
      simp [State.setRefs]
    · simp [State.setRefs, e]
  refine ⟨?_, h.servers, h.hits, ?_, ?_⟩
  · intro c' fd hfd
    exact h.clients c' fd (same c' ▸ hfd)
  · intro c'
    simp only [same, setRefs_closesOf]
    exact h.once c'
  · intro c' hc
    simp only [same, setRefs_closesOf]
    exact h.fresh c' hc

theorem owned_moveTo {s : State} (h : Owned s) (c : Nat) (p : Position)
    (idle : ∀ fd, p = .processing (some fd) → designates s.table fd = some (.origin c)) :
    Owned (s.moveTo c p) := by
  refine ⟨h.clients, ?_, h.hits, h.once, h.fresh⟩
  intro c' fd hp
  by_cases e : c' = c
  · subst e
    simp only [State.moveTo, Function.update_self] at hp
    exact idle fd hp
  · simp only [State.moveTo, Function.update_of_ne e] at hp
    exact h.servers c' fd hp

theorem owned_destroy {s : State} (h : Owned s) (c : Nat) : Owned (s.destroy c) := by
  unfold State.destroy
  split
  · exact h
  · rename_i fd hfd
    have own := h.clients c fd hfd
    have before := h.once c
    rw [hfd] at before
    simp only [reduceCtorEq, if_false] at before
    refine ⟨?_, ?_, ?_, ?_, ?_⟩
    · intro c' fd' h'
      by_cases e : c' = c
      · subst e
        simp [State.closeFd] at h'
      · simp only [State.closeFd, Function.update_of_ne e] at h'
        exact designates_close_of_ne (h.clients c' fd' h') own (by simpa using Ne.symm e)
    · intro c' fd' hp
      exact designates_close_of_ne (h.servers c' fd' hp) own (by simp)
    · intro x hx
      rcases List.mem_cons.mp hx with rfl | hx
      · exact own
      · exact h.hits x hx
    · intro c'
      by_cases e : c' = c
      · subst e
        simp only [State.closesOf, State.closeFd, List.countP_cons, decide_true, if_true,
          Function.update_self] at before ⊢
        omega
      · have other : ¬ c = c' := fun eq => e eq.symm
        have old := h.once c'
        simpa [State.closesOf, State.closeFd, List.countP_cons, other, e] using old
    · intro c' hc
      have old := h.fresh c' hc
      have e : c' ≠ c := by
        intro e
        rw [e, hfd] at old
        cases old.1
      have other : ¬ c = c' := fun eq => e eq.symm
      simpa [State.closesOf, State.closeFd, List.countP_cons, other, e] using old

theorem owned_release {s : State} (h : Owned s) (c : Nat) : Owned (s.release c) := by
  unfold State.release
  split
  · exact owned_destroy h c
  · exact owned_setRefs h c _

theorem owned_releaseAll {s : State} (h : Owned s) (held : Option Nat) :
    Owned (s.releaseAll held) := by
  cases held with
  | none => exact h
  | some c => exact owned_release h c

theorem owned_main {s : State} (h : Owned s) (client_socket : Option Nat) (m : Main) :
    Owned { s with client_socket := client_socket, main := m } :=
  ⟨h.clients, h.servers, h.hits, h.once, h.fresh⟩

theorem owned_accept {s : State} (h : Owned s) (m : Main) : Owned
    { s.install (.client s.accepted) with
      accepted := s.accepted + 1
      sockets := Function.update s.sockets s.accepted ⟨some (lowest s.table), 1⟩
      main := m } := by
  have zero := (h.fresh s.accepted (Nat.le_refl _)).2
  refine ⟨?_, ?_, h.hits, ?_, ?_⟩
  · intro c fd hfd
    by_cases e : c = s.accepted
    · subst e
      simp only [Function.update_self, Option.some.injEq] at hfd
      exact hfd ▸ designates_install_lowest s.table _
    · simp only [Function.update_of_ne e] at hfd
      exact designates_install_of_some (h.clients c fd hfd) _
  · intro c fd hp
    exact designates_install_of_some (h.servers c fd hp) _
  · intro c
    by_cases e : c = s.accepted
    · subst e
      simp only [Function.update_self]
      have : s.closesOf s.accepted ≤ 0 := Nat.le_of_eq zero
      exact Nat.add_le_add this (Nat.le_refl 1)
    · simp only [Function.update_of_ne e]
      exact h.once c
  · intro c hc
    have e : c ≠ s.accepted := by
      simp only at hc
      omega
    simp only [Function.update_of_ne e]
    exact h.fresh c (by simp only at hc; omega)

theorem owned_openServer {s : State} (h : Owned s) (c : Nat) : Owned (s.install (.origin c)) where
  clients c' fd hfd := designates_install_of_some (h.clients c' fd hfd) _
  servers c' fd hp := designates_install_of_some (h.servers c' fd hp) _
  hits := h.hits
  once := h.once
  fresh := h.fresh

theorem owned_closeServer {s : State} (h : Owned s) {c fd : Nat}
    (at_server : s.handlers c = .processing (some fd)) :
    Owned ((s.closeFd (.origin c) fd).moveTo c .leaving) := by
  have own := h.servers c fd at_server
  have count : ∀ c', ((s.closeFd (.origin c) fd).moveTo c .leaving).closesOf c' = s.closesOf c' := by
    intro c'
    simp [State.closesOf, State.closeFd, State.moveTo]
  refine ⟨?_, ?_, ?_, ?_, ?_⟩
  · intro c' fd' h'
    exact designates_close_of_ne (h.clients c' fd' h') own (by simp)
  · intro c' fd' hp
    by_cases e : c' = c
    · subst e
      simp [State.moveTo] at hp
    · simp only [State.moveTo, State.closeFd, Function.update_of_ne e] at hp
      exact designates_close_of_ne (h.servers c' fd' hp) own (by simpa using Ne.symm e)
  · intro x hx
    rcases List.mem_cons.mp hx with rfl | hx
    · exact own
    · exact h.hits x hx
  · intro c'
    rw [count]
    exact h.once c'
  · intro c' hc
    rw [count]
    exact h.fresh c' hc

/-- No action but an early exit closes what is not its own. -/
theorem owned_step {s s' : State} (h : Owned s) (a : Action) (regular : a.earlyExit = none)
    (hs : step s a = some s') : Owned s' := by
  cases a with
  | accept =>
    simp only [step, Option.ite_none_right_eq_some, Option.some.injEq] at hs
    obtain ⟨-, rfl⟩ := hs
    exact owned_accept h _
  | acceptFail =>
    simp only [step, Option.ite_none_right_eq_some, Option.some.injEq] at hs
    obtain ⟨-, rfl⟩ := hs
    exact owned_main h s.client_socket (.assigning none)
  | assign =>
    simp only [step] at hs
    split at hs
    · rename_i c hm
      cases hs
      exact owned_releaseAll (owned_main h (some c) (.creating c)) s.client_socket
    · cases hs
      exact owned_releaseAll (owned_main h none .accepting) s.client_socket
    · cases hs
  | createThread =>
    simp only [step] at hs
    split at hs
    · rename_i c hm
      cases hs
      have idle := owned_main h s.client_socket .accepting
      exact owned_moveTo (owned_setRefs idle c _) c _ (by simp)
    · cases hs
  | createThreadFail =>
    simp only [step] at hs
    split at hs
    · cases hs
      exact owned_main h s.client_socket .accepting
    · cases hs
  | copySocket c =>
    simp only [step, Option.ite_none_right_eq_some, Option.some.injEq] at hs
    obtain ⟨-, rfl⟩ := hs
    exact owned_moveTo (owned_setRefs h c _) c _ (by simp)
  | recvNothing c => cases regular
  | parseFail c => cases regular
  | parseOk c =>
    simp only [step] at hs
    split at hs
    · cases hs
      exact owned_moveTo h c _ (by simp)
    · cases hs
  | openServer c =>
    simp only [step, Option.ite_none_right_eq_some, Option.some.injEq] at hs
    obtain ⟨-, rfl⟩ := hs
    apply owned_moveTo (owned_openServer h c)
    intro fd hp
    cases hp
    exact designates_install_lowest s.table _
  | openServerThrow c =>
    simp only [step, Option.ite_none_right_eq_some, Option.some.injEq] at hs
    obtain ⟨-, rfl⟩ := hs
    exact owned_moveTo (owned_openServer h c) c _ (by simp)
  | closeServer c =>
    simp only [step] at hs
    split at hs
    · rename_i fd hp
      cases hs
      exact owned_closeServer h hp
    · cases hs
  | finish c =>
    simp only [step, Option.ite_none_right_eq_some, Option.some.injEq] at hs
    obtain ⟨-, rfl⟩ := hs
    exact owned_moveTo h c _ (by simp)
  | deleteData c =>
    simp only [step, Option.ite_none_right_eq_some, Option.some.injEq] at hs
    obtain ⟨-, rfl⟩ := hs
    exact owned_moveTo (owned_release h c) c _ (by simp)
  | returnNull c =>
    simp only [step, Option.ite_none_right_eq_some, Option.some.injEq] at hs
    obtain ⟨-, rfl⟩ := hs
    exact owned_moveTo (owned_release h c) c _ (by simp)

theorem owned_run {s s' : State} (h : Owned s) (actions : List Action)
    (regular : ∀ a ∈ actions, a.earlyExit = none) (hrun : run s actions = some s') : Owned s' :=
  Runs.invariant (fun _ a _ h regular stepped => owned_step h a regular stepped) h regular hrun

theorem Owned.safe {s : State} (h : Owned s) : Safe s :=
  ⟨h.hits, fun c => Nat.le_trans (Nat.le_add_right _ _) (h.once c)⟩

/-- While every connection brings a request that Request::parse accepts, each close closes the
descriptor of its own connection. -/
theorem closes_own_descriptor (reserved : Nat) (actions : List Action) (s : State)
    (accepted_requests : ∀ a ∈ actions, a.earlyExit = none)
    (hrun : run (start reserved) actions = some s) : Safe s :=
  (owned_run (owned_start reserved) actions accepted_requests hrun).safe

/-- One connection from accept to its destructor, with a server socket in between. -/
theorem closes_own_descriptor_forwarding : ∃ s, run (start 5) [.accept, .assign, .createThread,
      .copySocket 0, .parseOk 0, .openServer 0, .accept, .assign, .closeServer 0, .deleteData 0,
      .returnNull 0] = some s ∧ Safe s := by
  obtain ⟨s, hrun⟩ : ∃ s, run (start 5) [.accept, .assign, .createThread, .copySocket 0,
      .parseOk 0, .openServer 0, .accept, .assign, .closeServer 0, .deleteData 0,
      .returnNull 0] = some s := ⟨_, rfl⟩
  exact ⟨s, hrun, closes_own_descriptor 5 _ s (by decide) hrun⟩

/-- A client that closes at once, a second one that gets the same number, and the destructor. -/
def earlyExitRun : List Action :=
  [.accept, .assign, .createThread, .copySocket 0, .recvNothing 0, .accept, .assign,
   .createThread, .deleteData 0, .returnNull 0]

theorem not_all_closes_own : ¬ ∀ (reserved : Nat) (actions : List Action) (s : State),
    run (start reserved) actions = some s → Safe s := by
  intro all
  have closes : (run (start 5) earlyExitRun).map State.closes =
      some [⟨.client 0, 5, some (.client 1)⟩, ⟨.client 0, 5, some (.client 0)⟩] := by decide
  obtain ⟨s, hrun, hs⟩ := Option.map_eq_some_iff.mp closes
  have safe := all 5 earlyExitRun s hrun
  have own := safe.1 ⟨.client 0, 5, some (.client 1)⟩ (by simp [hs])
  cases own

end CachingProxy.Descriptors
