import CachingProxy.Descriptors

/-! Who still holds a connection. While no connection ends early and no server socket fails to be
made, the reference counts are the numbers of holders, a descriptor is open exactly as long as
someone holds it, and every connection is closed once in the end. -/
namespace CachingProxy.Descriptors
open Posix

def bit (p : Prop) [Decidable p] : Nat := if p then 1 else 0

/-- The reference in ThreadData and the one in the handler's own copy. -/
def Position.refs : Position → Nat
  | .absent => 0
  | .starting => 1
  | .reading _ => 2
  | .processing _ => 2
  | .leaving => 2
  | .returning => 1
  | .gone => 0

/-- The value that accept has returned, the loop variable of main, and the thread. -/
def State.holders (s : State) (c : Nat) : Nat :=
  bit (s.main = .assigning (some c)) + bit (s.client_socket = some c) + (s.handlers c).refs

/-- Neither an early exit nor a constructor that throws. -/
def Action.Tidy (a : Action) : Prop := a.earlyExit = none ∧ ∀ c, a ≠ .openServerThrow c

instance : DecidablePred Action.Tidy := fun a =>
  match a with
  | .openServerThrow c => isFalse (fun h => h.2 c rfl)
  | .recvNothing _ | .parseFail _ => isFalse (fun h => by cases h.1)
  | .accept | .acceptFail | .assign | .createThread | .createThreadFail | .copySocket _ |
    .parseOk _ | .openServer _ | .closeServer _ | .finish _ | .deleteData _ | .returnNull _ =>
    isTrue ⟨rfl, nofun⟩

/-- The counts, but for a reference to `dropped` that is about to be released. -/
structure Balanced (dropped : Option Nat) (s : State) : Prop where
  refs : ∀ c, (s.sockets c).refs = s.holders c + bit (dropped = some c)
  live : ∀ c, (s.sockets c).socket_fd_ = none ↔ (s.sockets c).refs = 0
  clients : ∀ fd c, designates s.table fd = some (.client c) → (s.sockets c).socket_fd_ = some fd
  origins : ∀ fd c, designates s.table fd = some (.origin c) →
    s.handlers c = .processing (some fd)
  closed : ∀ c < s.accepted, s.closesOf c = bit ((s.sockets c).socket_fd_ = none)
  fresh : ∀ c, s.accepted ≤ c → s.handlers c = .absent ∧ s.client_socket ≠ some c ∧
    s.main ≠ .assigning (some c)
  assigning : ∀ c, s.main = .assigning (some c) → s.handlers c = .absent ∧ s.client_socket ≠ some c
  creating : ∀ c, s.main = .creating c → s.handlers c = .absent ∧ s.client_socket = some c

theorem designates_reserved (reserved fd : Nat) (o : Owner)
    (used : designates (start reserved).table fd = some o) : o = .other := by
  simp only [designates, start, List.getD_eq_getElem?_getD, List.getElem?_replicate] at used
  split at used
  · exact (Option.some.inj used).symm
  · cases used

theorem balanced_start (reserved : Nat) : Balanced none (start reserved) where
  refs c := rfl
  live c := by simp [start]
  clients fd c used := by cases designates_reserved reserved fd _ used
  origins fd c used := by cases designates_reserved reserved fd _ used
  closed c h := absurd h (Nat.not_lt_zero c)
  fresh c _ := ⟨rfl, nofun, nofun⟩
  assigning c h := by cases h
  creating c h := by cases h

/-! ## References -/

theorem bit_of {p : Prop} [Decidable p] (h : p) : bit p = 1 := if_pos h

theorem bit_of_not {p : Prop} [Decidable p] (h : ¬ p) : bit p = 0 := if_neg h

/-- A thread that runs belongs to an accepted connection that main is done with. -/
theorem Balanced.active {s : State} {dropped : Option Nat} (h : Balanced dropped s) {c : Nat}
    (runs : s.handlers c ≠ .absent) :
    c < s.accepted ∧ s.main ≠ .assigning (some c) ∧ s.main ≠ .creating c := by
  refine ⟨?_, fun at_main => runs (h.assigning c at_main).1, fun at_main =>
    runs (h.creating c at_main).1⟩
  by_contra none_yet
  exact runs (h.fresh c (Nat.le_of_not_lt none_yet)).1

theorem balanced_setRefs {s : State} {d d' : Option Nat} (h : Balanced d s) {c n : Nat}
    (held : (s.sockets c).refs ≠ 0) (some_left : n ≠ 0)
    (count : n + bit (d = some c) = (s.sockets c).refs + bit (d' = some c))
    (others : ∀ c' ≠ c, bit (d = some c') = bit (d' = some c')) : Balanced d' (s.setRefs c n) := by
  have fd (c' : Nat) : ((s.setRefs c n).sockets c').socket_fd_ = (s.sockets c').socket_fd_ := by
    by_cases own : c' = c
    · subst own
      simp [State.setRefs]
    · simp [State.setRefs, own]
  refine ⟨fun c' => ?_, fun c' => ?_, fun fd' c' used => ?_, h.origins, fun c' old => ?_, h.fresh,
    h.assigning, h.creating⟩
  · have before := h.refs c'
    change _ = s.holders c' + _
    by_cases own : c' = c
    · subst own
      simp only [State.setRefs, Function.update_self]
      omega
    · simp only [State.setRefs, Function.update_of_ne own]
      rw [before, others c' own]
  · by_cases own : c' = c
    · subst own
      rw [fd, h.live]
      simp only [State.setRefs, Function.update_self]
      exact iff_of_false held some_left
    · rw [fd]
      simp only [State.setRefs, Function.update_of_ne own]
      exact h.live c'
  · rw [fd]
    exact h.clients fd' c' used
  · rw [fd, setRefs_closesOf]
    exact h.closed c' old

/-- A reference that is not yet anyone's. -/
theorem balanced_retain {s : State} (h : Balanced none s) {c : Nat}
    (held : (s.sockets c).refs ≠ 0) : Balanced (some c) (s.retain c) := by
  refine balanced_setRefs h held (Nat.succ_ne_zero _) ?_ (fun c' other => ?_)
  · rw [bit_of_not (by rintro ⟨⟩), bit_of rfl]
  · rw [bit_of_not (by rintro ⟨⟩), bit_of_not (fun e => other (Option.some.inj e).symm)]

/-- The last reference closes the descriptor. -/
theorem balanced_destroy {s : State} {c : Nat} (h : Balanced (some c) s) (own : Owned s)
    (last : (s.sockets c).refs = 1) : Balanced none (s.destroy c) := by
  have count := h.refs c
  rw [last, bit_of rfl] at count
  unfold State.destroy
  split
  · rename_i shut
    have zero := (h.live c).mp shut
    omega
  · rename_i fd opened
    have mine := own.clients c fd opened
    refine ⟨fun c' => ?_, fun c' => ?_, fun fd' c' used => ?_, fun fd' c' used => ?_,
      fun c' old => ?_, h.fresh, h.assigning, h.creating⟩
    · have before := h.refs c'
      change _ = s.holders c' + _
      by_cases same : c' = c
      · subst same
        simp only [State.closeFd, Function.update_self]
        rw [bit_of_not (by rintro ⟨⟩)]
        omega
      · simp only [State.closeFd, Function.update_of_ne same]
        rw [before, bit_of_not (fun e => same (Option.some.inj e).symm), bit_of_not (by rintro ⟨⟩)]
    · by_cases same : c' = c
      · subst same
        simp [State.closeFd]
      · simp only [State.closeFd, Function.update_of_ne same]
        exact h.live c'
    · simp only [State.closeFd, designates_close] at used
      split at used
      · cases used
      · rename_i other
        have still := h.clients fd' c' used
        have same : c' ≠ c := by
          rintro rfl
          exact other (Option.some.inj (still.symm.trans opened))
        simp only [State.closeFd, Function.update_of_ne same]
        exact still
    · simp only [State.closeFd, designates_close] at used
      split at used
      · cases used
      · exact h.origins fd' c' used
    · have before := h.closed c' old
      by_cases same : c' = c
      · subst same
        rw [opened, bit_of_not (by rintro ⟨⟩)] at before
        simp only [State.closesOf, State.closeFd, List.countP_cons, Function.update_self,
          decide_true, if_true] at before ⊢
        rw [before, bit_of trivial]
      · have other : ¬ c = c' := fun e => same e.symm
        simpa [State.closesOf, State.closeFd, List.countP_cons, other, same] using before

theorem balanced_release {s : State} {c : Nat} (h : Balanced (some c) s) (own : Owned s) :
    Balanced none (s.release c) := by
  have count := h.refs c
  rw [bit_of rfl] at count
  unfold State.release
  split
  · rename_i last
    exact balanced_destroy h own last
  · refine balanced_setRefs h (by omega) (by omega) ?_ (fun c' other => ?_)
    · rw [bit_of rfl, bit_of_not (by rintro ⟨⟩)]
      omega
    · rw [bit_of_not (fun e => other (Option.some.inj e).symm), bit_of_not (by rintro ⟨⟩)]

/-! ## Holders -/

theorem balanced_moveTo {s : State} {d d' : Option Nat} (h : Balanced d s) {c : Nat}
    (listed : c < s.accepted ∧ s.main ≠ .assigning (some c) ∧ s.main ≠ .creating c)
    {p : Position} (count : (s.handlers c).refs + bit (d = some c) = p.refs + bit (d' = some c))
    (others : ∀ c' ≠ c, bit (d = some c') = bit (d' = some c'))
    (server : ∀ fd, designates s.table fd = some (.origin c) → p = .processing (some fd)) :
    Balanced d' (s.moveTo c p) := by
  obtain ⟨accepted, assigned, created⟩ := listed
  have same {c' : Nat} (other : c' ≠ c) : (s.moveTo c p).handlers c' = s.handlers c' :=
    Function.update_of_ne other _ _
  refine ⟨fun c' => ?_, h.live, h.clients, fun fd c' used => ?_, h.closed, fun c' late => ?_,
    fun c' at_main => ?_, fun c' at_main => ?_⟩
  · have before := h.refs c'
    change (s.sockets c').refs = bit (s.main = .assigning (some c')) +
      bit (s.client_socket = some c') + ((s.moveTo c p).handlers c').refs + bit (d' = some c')
    unfold State.holders at before
    by_cases own : c' = c
    · subst own
      have now : (s.moveTo c' p).handlers c' = p := Function.update_self ..
      rw [now]
      omega
    · rw [same own, before, others c' own]
  · by_cases own : c' = c
    · subst own
      simp only [State.moveTo, Function.update_self]
      exact server fd used
    · rw [same own]
      exact h.origins fd c' used
  · have own : c' ≠ c := by
      rintro rfl
      exact absurd late (Nat.not_le_of_gt accepted)
    rw [same own]
    exact h.fresh c' late
  · have own : c' ≠ c := by
      rintro rfl
      exact assigned at_main
    rw [same own]
    exact h.assigning c' at_main
  · have own : c' ≠ c := by
      rintro rfl
      exact created at_main
    rw [same own]
    exact h.creating c' at_main

/-- Without a server socket no descriptor is the origin's. -/
theorem Balanced.no_server {s : State} {d : Option Nat} (h : Balanced d s) {c : Nat}
    (without : ∀ fd, s.handlers c ≠ .processing (some fd)) (p : Position) (fd : Nat)
    (used : designates s.table fd = some (.origin c)) : p = .processing (some fd) :=
  absurd (h.origins fd c used) (without fd)

theorem balanced_main {s : State} {d d' : Option Nat} (h : Balanced d s)
    {client_socket : Option Nat} {m : Main}
    (count : ∀ c, bit (s.main = .assigning (some c)) + bit (s.client_socket = some c) +
      bit (d = some c) = bit (m = .assigning (some c)) + bit (client_socket = some c) +
        bit (d' = some c))
    (fresh : ∀ c, s.accepted ≤ c → client_socket ≠ some c ∧ m ≠ .assigning (some c))
    (assigning : ∀ c, m ≠ .assigning (some c))
    (creating : ∀ c, m = .creating c → s.handlers c = .absent ∧ client_socket = some c) :
    Balanced d' { s with client_socket := client_socket, main := m } := by
  refine ⟨fun c => ?_, h.live, h.clients, h.origins, h.closed, fun c late => ?_, fun c at_main =>
    absurd at_main (assigning c), creating⟩
  · have before := h.refs c
    have same := count c
    unfold State.holders at before ⊢
    dsimp only
    omega
  · exact ⟨(h.fresh c late).1, fresh c late⟩

theorem balanced_releaseAll {s : State} {held : Option Nat} (h : Balanced held s) (own : Owned s) :
    Balanced none (s.releaseAll held) := by
  cases held with
  | none => exact h
  | some c => exact balanced_release h own

/-! ## Actions -/

theorem balanced_accept {s : State} (h : Balanced none s) (own : Owned s)
    (at_accept : s.main = .accepting) : Balanced none { s.install (.client s.accepted) with
      accepted := s.accepted + 1
      sockets := Function.update s.sockets s.accepted ⟨some (lowest s.table), 1⟩
      main := .assigning (some s.accepted) } := by
  obtain ⟨absent, unheld, -⟩ := h.fresh s.accepted (Nat.le_refl _)
  refine ⟨fun c => ?_, fun c => ?_, fun fd c used => ?_, fun fd c used => ?_, fun c old => ?_,
    fun c late => ?_, fun c at_main => ?_, (by rintro _ ⟨⟩)⟩
  · unfold State.holders State.install
    dsimp only
    by_cases new : c = s.accepted
    · subst new
      rw [Function.update_self, absent, bit_of rfl, bit_of_not unheld, bit_of_not (by rintro ⟨⟩)]
      rfl
    · have before := h.refs c
      unfold State.holders at before
      rw [at_accept, bit_of_not (by rintro ⟨⟩)] at before
      have other : ¬ Main.assigning (some s.accepted) = .assigning (some c) := by
        intro e
        cases e
        exact new rfl
      rw [Function.update_of_ne new, before, bit_of_not other]
  · by_cases new : c = s.accepted
    · subst new
      simp
    · simp only [Function.update_of_ne new]
      exact h.live c
  · simp only [State.install, designates_install] at used
    split at used
    · rename_i here
      cases used
      simp [here]
    · have other : c ≠ s.accepted := by
        rintro rfl
        have closed := (own.fresh s.accepted (Nat.le_refl _)).1
        cases closed.symm.trans (h.clients fd s.accepted used)
      simp only [Function.update_of_ne other]
      exact h.clients fd c used
  · simp only [State.install, designates_install] at used
    split at used
    · cases used
    · exact h.origins fd c used
  · by_cases new : c = s.accepted
    · subst new
      simp only [Function.update_self]
      rw [bit_of_not (by rintro ⟨⟩)]
      exact (own.fresh s.accepted (Nat.le_refl _)).2
    · simp only [Function.update_of_ne new]
      exact h.closed c (Nat.lt_of_le_of_ne (Nat.le_of_lt_succ old) new)
  · have later : s.accepted ≤ c := Nat.le_of_succ_le late
    obtain ⟨absent', unheld', -⟩ := h.fresh c later
    refine ⟨absent', unheld', fun e => ?_⟩
    cases e
    exact Nat.not_succ_le_self _ late
  · cases at_main
    exact ⟨absent, unheld⟩

theorem balanced_openServer {s : State} (h : Balanced none s) {c : Nat}
    (at_server : s.handlers c = .processing none) : Balanced none
      ((s.install (.origin c)).moveTo c (.processing (some (lowest s.table)))) := by
  have running : s.handlers c ≠ .absent := by
    rw [at_server]
    rintro ⟨⟩
  have moved : Balanced none (s.moveTo c (.processing (some (lowest s.table)))) := by
    refine balanced_moveTo h (h.active running) ?_ (fun _ _ => rfl) ?_
    · rw [at_server]
      rfl
    · refine h.no_server ?_ _
      rw [at_server]
      rintro _ ⟨⟩
  refine ⟨moved.refs, moved.live, fun fd c' used => ?_, fun fd c' used => ?_, moved.closed,
    moved.fresh, moved.assigning, moved.creating⟩
  · simp only [State.moveTo, State.install, designates_install] at used
    split at used
    · cases used
    · exact h.clients fd c' used
  · simp only [State.moveTo, State.install, designates_install] at used
    split at used
    · rename_i here
      cases used
      simp [State.moveTo, here]
    · exact moved.origins fd c' used

theorem balanced_closeServer {s : State} (h : Balanced none s) {c fd : Nat}
    (at_server : s.handlers c = .processing (some fd)) :
    Balanced none ((s.closeFd (.origin c) fd).moveTo c .leaving) := by
  have closed : Balanced none (s.closeFd (.origin c) fd) := by
    refine ⟨h.refs, h.live, fun fd' c' used => ?_, fun fd' c' used => ?_, fun c' old => ?_,
      h.fresh, h.assigning, h.creating⟩
    · simp only [State.closeFd, designates_close] at used
      split at used
      · cases used
      · exact h.clients fd' c' used
    · simp only [State.closeFd, designates_close] at used
      split at used
      · cases used
      · exact h.origins fd' c' used
    · have same : (s.closeFd (.origin c) fd).closesOf c' = s.closesOf c' := by
        simp [State.closesOf, State.closeFd]
      rw [same]
      exact h.closed c' old
  have running : (s.closeFd (.origin c) fd).handlers c ≠ .absent := by
    change s.handlers c ≠ .absent
    rw [at_server]
    rintro ⟨⟩
  refine balanced_moveTo closed (closed.active running) ?_ (fun _ _ => rfl) ?_
  · change (s.handlers c).refs + _ = _
    rw [at_server]
    rfl
  · intro fd' used
    simp only [State.closeFd, designates_close] at used
    split at used
    · cases used
    · rename_i other
      cases at_server.symm.trans (h.origins fd' c used)
      exact absurd rfl other

theorem release_moveTo (s : State) (c : Nat) (p : Position) :
    (s.release c).moveTo c p = (s.moveTo c p).release c := by
  by_cases last : (s.sockets c).refs = 1
  · have moved : ((s.moveTo c p).sockets c).refs = 1 := last
    simp only [State.release, if_pos last, if_pos moved]
    unfold State.destroy
    cases opened : (s.sockets c).socket_fd_ with
    | none =>
      have moved : ((s.moveTo c p).sockets c).socket_fd_ = none := opened
      simp only [moved]
    | some fd =>
      have moved : ((s.moveTo c p).sockets c).socket_fd_ = some fd := opened
      simp only [moved]
      rfl
  · have moved : ¬ ((s.moveTo c p).sockets c).refs = 1 := last
    simp only [State.release, if_neg last, if_neg moved]
    rfl

/-- A thread gives one of its references back. -/
theorem balanced_leave {s : State} (h : Balanced none s) (own : Owned s) {c : Nat} {p : Position}
    (running : s.handlers c ≠ .absent) (serverless : ∀ fd, s.handlers c ≠ .processing (some fd))
    (count : (s.handlers c).refs = p.refs + 1) (idle : ∀ fd, p ≠ .processing (some fd)) :
    Balanced none ((s.release c).moveTo c p) := by
  rw [release_moveTo]
  refine balanced_release (balanced_moveTo h (h.active running) ?_ (fun c' other => ?_)
    (h.no_server serverless p)) (owned_moveTo own c p (fun fd e => absurd e (idle fd)))
  · rw [bit_of_not (by rintro ⟨⟩), bit_of rfl]
    omega
  · rw [bit_of_not (fun e => other (Option.some.inj e).symm), bit_of_not (by rintro ⟨⟩)]

/-- A thread moves on with the references that it has. -/
theorem balanced_go {s : State} (h : Balanced none s) {c : Nat} {p : Position}
    (running : s.handlers c ≠ .absent) (serverless : ∀ fd, s.handlers c ≠ .processing (some fd))
    (count : (s.handlers c).refs = p.refs) : Balanced none (s.moveTo c p) :=
  balanced_moveTo h (h.active running) (by rw [count]) (fun _ _ => rfl) (h.no_server serverless p)

/-- A thread takes one more reference. -/
theorem balanced_take {s : State} (h : Balanced none s) {c : Nat} {p : Position}
    (held : (s.sockets c).refs ≠ 0) (serverless : ∀ fd, s.handlers c ≠ .processing (some fd))
    (listed : c < s.accepted ∧ s.main ≠ .assigning (some c) ∧ s.main ≠ .creating c)
    (count : (s.handlers c).refs + 1 = p.refs) : Balanced none ((s.retain c).moveTo c p) := by
  refine balanced_moveTo (balanced_retain h held) listed ?_ (fun c' other => ?_)
    (h.no_server serverless p)
  · change (s.handlers c).refs + _ = _
    rw [bit_of rfl, bit_of_not (by rintro ⟨⟩)]
    exact count
  · rw [bit_of_not (fun e => other (Option.some.inj e).symm), bit_of_not (by rintro ⟨⟩)]

/-- Main assigns what accept returned and drops what the loop variable held. -/
theorem balanced_assign {s : State} (h : Balanced none s) (own : Owned s) {result : Option Nat}
    (at_assign : s.main = .assigning result) {m : Main} (idle : ∀ c, m ≠ .assigning (some c))
    (next : ∀ c, m = .creating c → result = some c) : Balanced none
      (({ s with client_socket := result, main := m }).releaseAll s.client_socket) := by
  refine balanced_releaseAll (balanced_main h (fun c => ?_) (fun c late => ?_) idle
    (fun c at_main => ?_)) (owned_main own _ _)
  · have same : bit (s.main = .assigning (some c)) = bit (result = some c) := by
      rw [at_assign]
      simp [bit]
    rw [same, bit_of_not (idle c), bit_of_not (p := none = some c) (by rintro ⟨⟩)]
    omega
  · refine ⟨fun e => ?_, idle c⟩
    exact (h.fresh c late).2.2 (e ▸ at_assign)
  · have same := next c at_main
    exact ⟨(h.assigning c (same ▸ at_assign)).1, same⟩

/-- Main goes on without a new connection. -/
theorem balanced_idle {s : State} (h : Balanced none s) {m : Main}
    (before : ∀ c, s.main ≠ .assigning (some c)) (idle : ∀ c, m ≠ .assigning (some c))
    (creates : ∀ c, m ≠ .creating c) : Balanced none { s with main := m } := by
  refine balanced_main h (fun c => ?_) (fun c late => ⟨(h.fresh c late).2.1, idle c⟩) idle
    (fun c at_main => absurd at_main (creates c))
  rw [bit_of_not (before c), bit_of_not (idle c)]

theorem balanced_step {s s' : State} (h : Balanced none s) (own : Owned s) (a : Action)
    (tidy : a.Tidy) (hs : step s a = some s') : Balanced none s' := by
  have spares (c : Nat) {p : Position} (here : s.handlers c = p)
      (serverless : ∀ fd, p ≠ .processing (some fd)) : ∀ fd, s.handlers c ≠ .processing (some fd) :=
    here ▸ serverless
  cases a with
  | accept =>
    simp only [step, Option.ite_none_right_eq_some, Option.some.injEq] at hs
    obtain ⟨at_accept, rfl⟩ := hs
    exact balanced_accept h own at_accept
  | acceptFail =>
    simp only [step, Option.ite_none_right_eq_some, Option.some.injEq] at hs
    obtain ⟨at_accept, rfl⟩ := hs
    exact balanced_idle h (by rw [at_accept]; rintro _ ⟨⟩) (by rintro _ ⟨⟩) (by rintro _ ⟨⟩)
  | assign =>
    simp only [step] at hs
    split at hs
    · rename_i c at_assign
      cases hs
      refine balanced_assign h own at_assign (by rintro _ ⟨⟩) (fun c' e => ?_)
      cases e
      rfl
    · rename_i at_assign
      cases hs
      exact balanced_assign h own at_assign (by rintro _ ⟨⟩) (by rintro _ ⟨⟩)
    · cases hs
  | createThread =>
    simp only [step] at hs
    split at hs
    · rename_i c at_create
      cases hs
      obtain ⟨absent, held⟩ := h.creating c at_create
      have idle : Balanced none { s with main := .accepting } :=
        balanced_idle h (by rw [at_create]; rintro _ ⟨⟩) (by rintro _ ⟨⟩) (by rintro _ ⟨⟩)
      have count := h.refs c
      rw [State.holders, bit_of held] at count
      refine balanced_take idle ?_ (spares c absent (by rintro _ ⟨⟩))
        ⟨?_, by rintro ⟨⟩, by rintro ⟨⟩⟩ ?_
      · change (s.sockets c).refs ≠ 0
        omega
      · by_contra none_yet
        exact (h.fresh c (Nat.le_of_not_lt none_yet)).2.1 held
      · change (s.handlers c).refs + 1 = _
        rw [absent]
        rfl
    · cases hs
  | createThreadFail =>
    simp only [step] at hs
    split at hs
    · rename_i c at_create
      cases hs
      exact balanced_idle h (by rw [at_create]; rintro _ ⟨⟩) (by rintro _ ⟨⟩) (by rintro _ ⟨⟩)
    · cases hs
  | copySocket c =>
    simp only [step, Option.ite_none_right_eq_some, Option.some.injEq] at hs
    obtain ⟨here, rfl⟩ := hs
    have count := h.refs c
    rw [State.holders, here] at count
    have running : s.handlers c ≠ .absent := by
      rw [here]
      rintro ⟨⟩
    refine balanced_take h ?_ (spares c here (by rintro _ ⟨⟩)) (h.active running) (by rw [here]; rfl)
    simp only [Position.refs] at count
    omega
  | recvNothing c => cases tidy.1
  | parseFail c => cases tidy.1
  | parseOk c =>
    simp only [step] at hs
    split at hs
    · rename_i fd here
      cases hs
      exact balanced_go h (by rw [here]; rintro ⟨⟩) (spares c here (by rintro _ ⟨⟩)) (by rw [here]; rfl)
    · cases hs
  | openServer c =>
    simp only [step, Option.ite_none_right_eq_some, Option.some.injEq] at hs
    obtain ⟨here, rfl⟩ := hs
    exact balanced_openServer h here
  | openServerThrow c => exact absurd rfl (tidy.2 c)
  | closeServer c =>
    simp only [step] at hs
    split at hs
    · rename_i fd here
      cases hs
      exact balanced_closeServer h here
    · cases hs
  | finish c =>
    simp only [step, Option.ite_none_right_eq_some, Option.some.injEq] at hs
    obtain ⟨here, rfl⟩ := hs
    exact balanced_go h (by rw [here]; rintro ⟨⟩) (spares c here (by rintro _ ⟨⟩)) (by rw [here]; rfl)
  | deleteData c =>
    simp only [step, Option.ite_none_right_eq_some, Option.some.injEq] at hs
    obtain ⟨here, rfl⟩ := hs
    exact balanced_leave h own (by rw [here]; rintro ⟨⟩) (spares c here (by rintro _ ⟨⟩))
      (by rw [here]; rfl) (by rintro _ ⟨⟩)
  | returnNull c =>
    simp only [step, Option.ite_none_right_eq_some, Option.some.injEq] at hs
    obtain ⟨here, rfl⟩ := hs
    exact balanced_leave h own (by rw [here]; rintro ⟨⟩) (spares c here (by rintro _ ⟨⟩))
      (by rw [here]; rfl) (by rintro _ ⟨⟩)

theorem balanced_run {s s' : State} (h : Balanced none s) (own : Owned s) {actions : List Action}
    (tidy : ∀ a ∈ actions, a.Tidy) (ran : run s actions = some s') :
    Balanced none s' ∧ Owned s' :=
  Runs.invariant (P := fun s => Balanced none s ∧ Owned s)
    (fun _ a _ h (tidy : a.Tidy) stepped =>
      ⟨balanced_step h.1 h.2 a tidy stepped, owned_step h.2 a tidy.1 stepped⟩) ⟨h, own⟩ tidy ran

/-- In every tidy run a connection's descriptor is open exactly as long as main or its thread still
holds it, and closed once after that; the loop variable of main holds the last connection on after
its thread has gone. A server descriptor is open exactly while its handler is processing. -/
theorem descriptors_held (reserved : Nat) (actions : List Action) (s : State)
    (tidy : ∀ a ∈ actions, a.Tidy) (ran : run (start reserved) actions = some s) (c : Nat)
    (old : c < s.accepted) :
    (s.sockets c).refs = s.holders c ∧
      ((∃ fd, designates s.table fd = some (.client c)) ↔ s.holders c ≠ 0) ∧
      s.closesOf c = bit (s.holders c = 0) ∧
      (s.handlers c = .gone → s.main = .accepting →
        (s.holders c ≠ 0 ↔ s.client_socket = some c)) ∧
      ∀ fd, designates s.table fd = some (.origin c) ↔ s.handlers c = .processing (some fd) := by
  obtain ⟨h, own⟩ := balanced_run (balanced_start reserved) (owned_start reserved) tidy ran
  have refs : (s.sockets c).refs = s.holders c := h.refs c
  have shut : (s.sockets c).socket_fd_ = none ↔ s.holders c = 0 := refs ▸ h.live c
  refine ⟨refs, ⟨?_, ?_⟩, ?_, ?_, fun fd => ⟨h.origins fd c, own.servers c fd⟩⟩
  · rintro ⟨fd, used⟩ none_holds
    cases (shut.mpr none_holds).symm.trans (h.clients fd c used)
  · intro held
    obtain ⟨fd, opened⟩ := Option.ne_none_iff_exists'.mp (mt shut.mp held)
    exact ⟨fd, own.clients c fd opened⟩
  · rw [h.closed c old]
    by_cases none_holds : s.holders c = 0
    · rw [bit_of none_holds, bit_of (shut.mpr none_holds)]
    · rw [bit_of_not none_holds, bit_of_not (mt shut.mp none_holds)]
  · intro gone at_accept
    have form : s.holders c = bit (s.client_socket = some c) := by
      rw [State.holders, gone, at_accept, bit_of_not (by rintro ⟨⟩), Nat.zero_add]
      rfl
    rw [form]
    unfold bit
    split
    · rename_i last
      exact iff_of_true Nat.one_ne_zero last
    · rename_i other
      exact iff_of_false (fun ne => ne rfl) other

/-- One connection from accept to its destructor; the next one takes its place in main. -/
theorem descriptors_held_forwarding : ∃ s, run (start 5) [.accept, .assign, .createThread,
      .copySocket 0, .parseOk 0, .openServer 0, .closeServer 0, .deleteData 0, .accept, .assign,
      .returnNull 0] = some s ∧ (s.holders 0 = 0 ∧ s.holders 1 = 1) ∧
    (s.sockets 0).refs = s.holders 0 ∧
      ((∃ fd, designates s.table fd = some (.client 0)) ↔ s.holders 0 ≠ 0) ∧
      s.closesOf 0 = bit (s.holders 0 = 0) ∧
      (s.handlers 0 = .gone → s.main = .accepting →
        (s.holders 0 ≠ 0 ↔ s.client_socket = some 0)) ∧
      ∀ fd, designates s.table fd = some (.origin 0) ↔ s.handlers 0 = .processing (some fd) := by
  refine ⟨_, rfl, ⟨rfl, rfl⟩, ?_⟩
  exact descriptors_held 5 [.accept, .assign, .createThread, .copySocket 0, .parseOk 0,
    .openServer 0, .closeServer 0, .deleteData 0, .accept, .assign, .returnNull 0] _ (by decide) rfl
    0 (by decide)

end CachingProxy.Descriptors
