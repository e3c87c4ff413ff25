import CachingProxy.Answered
import CachingProxy.Replay
import Mathlib.Order.Filter.AtTopBot.Basic

/-! When a handler returns. It waits for ever where a peer is silent, where a socket is interrupted in
every send, where an origin never ends its answer or a tunnel never closes. If none of this is so, it
returns. -/
namespace CachingProxy
open Cpp Action

/-! ## A kernel that goes on answering -/

/-- What the kernel answers on one connection, without end. -/
structure Endless where
  client_sends : Nat → SendOutcome
  client_recvs : Nat → RecvOutcome
  server_sends : Nat → SendOutcome
  server_recvs : Nat → RecvOutcome
  polls : Nat → Poll

def firsts {α : Type} (f : Nat → α) (n : Nat) : List α := (List.range n).map f

/-- The first `n` answers to every kind of call. -/
def Endless.upTo (e : Endless) (n : Nat) : Kernel where
  client_sends := firsts e.client_sends n
  client_recvs := firsts e.client_recvs n
  server_sends := firsts e.server_sends n
  server_recvs := firsts e.server_recvs n
  polls := firsts e.polls n

def Endless.recvs (e : Endless) : Side → Nat → RecvOutcome
  | .client => e.client_recvs
  | .server => e.server_recvs

/-- From some point on nothing is received. -/
def Finished (recvs : Nat → RecvOutcome) : Prop := ∃ i, ∀ j, i ≤ j → (recvs j).bytes = []

/-- The side is reported readable again and again. -/
def Reported (fd : Side) (polls : Nat → Poll) : Prop := ∀ n, ∃ i, n ≤ i ∧ (polls i).reads fd = true

/-- A poll fails or reports a hangup, or a side that has come to its end is reported readable again
and again. -/
inductive TunnelEnds (e : Endless) : Prop where
  | hangup (i : Nat) (stops : (e.polls i).Stops)
  | ended (fd : Side) (reported : Reported fd e.polls) (finished : Finished (e.recvs fd))

section firsts

variable {α : Type} {f : Nat → α}

theorem length_firsts (f : Nat → α) (n : Nat) : (firsts f n).length = n := by
  rw [firsts, List.length_map, List.length_range]

theorem firsts_succ (f : Nat → α) (n : Nat) :
    firsts f (n + 1) = f 0 :: firsts (fun i => f (i + 1)) n := by
  rw [firsts, List.range_succ_eq_map, List.map_cons, List.map_map]
  rfl

/-- What comes again and again is counted up to any number. -/
theorem eventually_countP {p : α → Bool} (again : ∀ n, ∃ m, n ≤ m ∧ p (f m) = true) (b : Nat) :
    ∀ᶠ m in Filter.atTop, b ≤ (firsts f m).countP p := by
  have grows {m m' : Nat} (le : m ≤ m') : (firsts f m).countP p ≤ (firsts f m').countP p :=
    ((List.range_sublist.mpr le).map f).countP_le
  rw [Filter.eventually_atTop]
  induction b with
  | zero => exact ⟨0, fun m _ => Nat.zero_le _⟩
  | succ b ih =>
    obtain ⟨n, enough⟩ := ih
    obtain ⟨i, late, next⟩ := again n
    refine ⟨i + 1, fun m le => Nat.le_trans ?_ (grows le)⟩
    rw [firsts, List.range_succ, List.map_append, List.countP_append, List.map_singleton,
      List.countP_singleton, if_pos next]
    exact Nat.succ_le_succ (enough i late)

end firsts

theorem eventually_willing {sends : Nat → SendOutcome} (answering : Answering sends) (b : Nat) :
    ∀ᶠ m in Filter.atTop, b ≤ willing (firsts sends m) := by
  apply eventually_countP
  intro n
  obtain ⟨m, late, taken⟩ := answering n
  exact ⟨m, late, decide_eq_true taken⟩

theorem eventually_endings {recvs : Nat → RecvOutcome} (finished : Finished recvs) (b : Nat) :
    ∀ᶠ m in Filter.atTop, b ≤ endings (firsts recvs m) := by
  obtain ⟨i, ended⟩ := finished
  apply eventually_countP
  exact fun n => ⟨max n i, Nat.le_max_left n i, decide_eq_true (ended _ (Nat.le_max_right n i))⟩

theorem bytes_fits (outcome : RecvOutcome) : outcome.bytes.length ≤ BUFFER_SIZE := by
  cases outcome with
  | data segment => exact segment.fits
  | closed => exact Nat.zero_le _
  | failed errno => exact Nat.zero_le _

theorem volume_firsts {recvs : Nat → RecvOutcome} {i : Nat}
    (ended : ∀ j, i ≤ j → (recvs j).bytes = []) (m : Nat) : volume (firsts recvs m) ≤ min m i * BUFFER_SIZE := by
  induction m with
  | zero => exact Nat.zero_le _
  | succ m ih =>
    have step : volume (firsts recvs (m + 1)) =
        volume (firsts recvs m) + (recvs m).bytes.length := by
      simp only [volume, firsts, List.range_succ, List.map_append, List.map_cons, List.map_nil,
        List.sum_append, List.sum_cons, List.sum_nil, Nat.add_zero]
    rw [step]
    rcases Nat.lt_or_ge m i with before | after
    · have more : min (m + 1) i = min m i + 1 := by omega
      rw [more, Nat.succ_mul]
      exact Nat.add_le_add ih (bytes_fits _)
    · have same : min (m + 1) i = min m i := by omega
      rw [same, ended m after]
      exact ih

/-! ## Tunnels that end -/

theorem closes_of_stop {polls : Nat → Poll} {i : Nat} (stops : (polls i).Stops) {m : Nat}
    (late : i < m) (recvs : Side → List RecvOutcome) : Closes (i + 1) (firsts polls m) recvs := by
  obtain ⟨m, rfl⟩ := Nat.exists_eq_add_of_lt (Nat.zero_lt_of_lt late)
  rw [Nat.zero_add] at late ⊢
  induction i generalizing polls m recvs with
  | zero =>
    rw [firsts_succ]
    exact .stops stops
  | succ i ih =>
    rw [firsts_succ]
    obtain ⟨m, rfl⟩ := Nat.exists_eq_add_of_lt (Nat.zero_lt_of_lt (Nat.lt_of_succ_lt_succ late))
    rw [Nat.zero_add] at late ⊢
    exact .goes_on (ih stops _ m (Nat.lt_of_succ_lt_succ late))

/-- The tunnel closes after as many polls as it takes to read `recvs` to its end. -/
def ClosesInTime (fd : Side) (polls : Nat → Poll) (recvs : Nat → RecvOutcome) : Prop :=
  ∃ n, ∀ m m' lists, n ≤ m → n ≤ m' → lists fd = firsts recvs m' → Closes n (firsts polls m) lists

theorem Reported.tail {fd : Side} {polls : Nat → Poll} (reported : Reported fd polls) :
    Reported fd (fun i => polls (i + 1)) := by
  intro n
  obtain ⟨i, late, reads⟩ := reported (n + 1)
  obtain ⟨i, rfl⟩ := Nat.exists_eq_add_of_le' (Nat.le_of_add_left_le late)
  exact ⟨i, Nat.le_of_succ_le_succ late, reads⟩

/-- One more poll, that does not end the tunnel. -/
theorem ClosesInTime.later {fd : Side} {polls : Nat → Poll} {recvs left : Nat → RecvOutcome}
    (h : ClosesInTime fd (fun i => polls (i + 1)) left)
    (next : ∀ m, ∃ m', m ≤ m' ∧
      (if (polls 0).reads fd then (firsts recvs (m + 1)).tail else firsts recvs (m + 1)) =
        firsts left m') : ClosesInTime fd polls recvs := by
  obtain ⟨n, closes⟩ := h
  refine ⟨n + 1, fun m m' lists late late' read => ?_⟩
  obtain ⟨m, rfl⟩ := Nat.exists_eq_add_of_le' (Nat.le_of_add_left_le late)
  obtain ⟨m', rfl⟩ := Nat.exists_eq_add_of_le' (Nat.le_of_add_left_le late')
  rw [firsts_succ]
  obtain ⟨m'', more, same⟩ := next m'
  refine .goes_on (closes m m'' _ (Nat.le_of_succ_le_succ late) ?_ ?_)
  · exact Nat.le_trans (Nat.le_of_succ_le_succ late') more
  · rw [read, same]

/-- Polls that do not report the side pass. -/
theorem closes_of_reported {fd : Side} {recvs : Nat → RecvOutcome}
    (now : ∀ polls : Nat → Poll, Reported fd polls → (polls 0).reads fd = true →
      ClosesInTime fd polls recvs)
    {polls : Nat → Poll} (reported : Reported fd polls) : ClosesInTime fd polls recvs := by
  obtain ⟨i, -, reads⟩ := reported 0
  induction i generalizing polls with
  | zero => exact now polls reported reads
  | succ i ih =>
    by_cases first : (polls 0).reads fd = true
    · exact now polls reported first
    · refine (ih reported.tail reads).later (fun m => ⟨m + 1, Nat.le_succ m, ?_⟩)
      rw [if_neg first]

/-- A side that is reported again and again is read to its end. -/
theorem closes_of_end {fd : Side} {polls : Nat → Poll} {recvs : Nat → RecvOutcome} {j : Nat}
    (reported : Reported fd polls) (ended : (recvs j).bytes = []) : ClosesInTime fd polls recvs := by
  induction j generalizing polls recvs with
  | zero =>
    refine closes_of_reported (fun polls reported reads => ⟨1, fun m m' lists late late' read => ?_⟩)
      reported
    obtain ⟨m, rfl⟩ := Nat.exists_eq_add_of_le' late
    obtain ⟨m', rfl⟩ := Nat.exists_eq_add_of_le' late'
    rw [firsts_succ] at read ⊢
    exact .ended fd reads (by rw [read, List.head?_cons]) ended
  | succ j ih =>
    refine closes_of_reported (fun polls reported reads => ?_) reported
    have rest : ClosesInTime fd (fun i => polls (i + 1)) (fun i => recvs (i + 1)) :=
      ih reported.tail ended
    refine rest.later (fun m => ⟨m, Nat.le_refl m, ?_⟩)
    rw [if_pos reads, firsts_succ, List.tail_cons]

/-! ## Handlers that return -/

/-- After the request has been received. -/
def Endless.heard (e : Endless) (m : Nat) : World :=
  (World.start (e.upTo m)).got .client (e.client_recvs 0).bytes (firsts e.client_recvs m).tail

theorem tail_firsts {α : Type} (f : Nat → α) (m : Nat) :
    (firsts f m).tail = firsts (fun i => f (i + 1)) (m - 1) := by
  cases m with
  | zero => rfl
  | succ m => rw [firsts_succ, List.tail_cons, Nat.add_sub_cancel]

section kernel

variable {e : Endless} (client : Answering e.client_sends) (server : Answering e.server_sends)
include client server

theorem eventually_answered (n b : Nat) : ∀ᶠ m in Filter.atTop, ∀ fd,
    n ≤ ((e.heard m).peer fd).recvs.length ∧ b ≤ willing ((e.heard m).peer fd).sends := by
  filter_upwards [eventually_willing client b, eventually_willing server b,
    Filter.eventually_ge_atTop (n + 1)] with m up down late
  intro fd
  cases fd with
  | client =>
    refine ⟨?_, up⟩
    change n ≤ (firsts e.client_recvs m).tail.length
    rw [List.length_tail, length_firsts]
    exact Nat.le_sub_one_of_lt late
  | server =>
    refine ⟨?_, down⟩
    change n ≤ (firsts e.server_recvs m).length
    rw [length_firsts]
    exact Nat.le_of_succ_le late

theorem eventually_tunnel (ends : TunnelEnds e) :
    ∀ᶠ m in Filter.atTop, TunnelAnswered (e.heard m) := by
  cases ends with
  | hangup i stops =>
    filter_upwards [eventually_answered client server (i + 1) (reserve + (i + 1) * BUFFER_SIZE),
      Filter.eventually_gt_atTop i] with m answered late
    exact ⟨i + 1, closes_of_stop stops late _, answered⟩
  | ended fd reported finished =>
    obtain ⟨j, ended⟩ := finished
    cases fd with
    | client =>
      have later : (e.client_recvs (j + 1)).bytes = [] := ended (j + 1) (Nat.le_succ j)
      have read : ClosesInTime .client e.polls (fun i => e.client_recvs (i + 1)) :=
        closes_of_end reported later
      obtain ⟨n, closes⟩ := read
      filter_upwards [eventually_answered client server n (reserve + n * BUFFER_SIZE),
        Filter.eventually_ge_atTop (n + 1)] with m answered late
      exact ⟨n, closes m (m - 1) _ (Nat.le_of_succ_le late) (Nat.le_sub_one_of_lt late)
        (tail_firsts _ m), answered⟩
    | server =>
      obtain ⟨n, closes⟩ := closes_of_end reported (ended j (Nat.le_refl j))
      filter_upwards [eventually_answered client server n (reserve + n * BUFFER_SIZE),
        Filter.eventually_ge_atTop n] with m answered late
      exact ⟨n, closes m m _ late late rfl, answered⟩

omit server in
theorem eventually_origin (finished : Finished e.server_recvs) :
    ∀ᶠ m in Filter.atTop, OriginAnswered (e.heard m) := by
  obtain ⟨i, ended⟩ := finished
  filter_upwards [eventually_endings ⟨i, ended⟩ 2, eventually_willing client
    (i * BUFFER_SIZE + reserve)] with m twice room
  refine ⟨twice, Nat.le_trans (Nat.add_le_add_right ?_ _) room⟩
  exact Nat.le_trans (volume_firsts ended m) (Nat.mul_le_mul_right _ (Nat.min_le_right m i))

omit server in
theorem eventually_hit (env : Environment) (request : Request) : ∀ᶠ m in Filter.atTop,
    ∀ cached_entry, env.lookup request.url = some cached_entry →
      (hit_message env cached_entry).length ≤ willing (firsts e.client_sends m) := by
  cases found : env.lookup request.url with
  | none => exact Filter.Eventually.of_forall (by rintro m cached_entry ⟨⟩)
  | some cached_entry =>
    filter_upwards [eventually_willing client (hit_message env cached_entry).length] with m room
    rintro cached_entry' ⟨⟩
    exact room

theorem eventually_met {env : Environment} {request : Request}
    (origin : AsksOrigin env request → Finished e.server_recvs)
    (tunnel : request.method = bytes "CONNECT" → TunnelEnds e) : ∀ᶠ m in Filter.atTop,
      (request.method = bytes "CONNECT" → TunnelAnswered (e.heard m)) ∧
        (AsksOrigin env request → OriginAnswered (e.heard m)) := by
  by_cases connect : request.method = bytes "CONNECT"
  · have other : ¬ AsksOrigin env request := by
      intro forwarded
      rcases forwarded.method with get | post
      · exact absurd (connect.symm.trans get) (by decide)
      · exact absurd (connect.symm.trans post) (by decide)
    filter_upwards [eventually_tunnel client server (tunnel connect)] with m closes
    exact ⟨fun _ => closes, fun forwarded => absurd forwarded other⟩
  · by_cases forwarded : AsksOrigin env request
    · filter_upwards [eventually_origin client (origin forwarded)] with m ended
      exact ⟨fun own => absurd own connect, fun _ => ended⟩
    · exact Filter.Eventually.of_forall
        (fun m => ⟨fun own => absurd own connect, fun own => absurd own forwarded⟩)

end kernel

theorem Requested.unique {env : Environment} {outcome : RecvOutcome} {request request' : Request}
    (h : Requested env outcome request) (h' : Requested env outcome request') :
    request = request' := by
  obtain ⟨segment, read, parsed⟩ := h
  obtain ⟨segment', read', parsed'⟩ := h'
  obtain rfl := RecvOutcome.data.inj (read.symm.trans read')
  exact Except.ok.inj (parsed.symm.trans parsed')

/-- A handler returns when its sends are not interrupted for ever and, if the request goes to an
origin, the origin ends its answer; if it opens a tunnel, the tunnel ends. -/
theorem handler_returns (env : Environment) (e : Endless) (client : Answering e.client_sends)
    (server : Answering e.server_sends)
    (origin : ∀ request, Requested env (e.client_recvs 0) request → AsksOrigin env request →
      Finished e.server_recvs)
    (tunnel : ∀ request, Requested env (e.client_recvs 0) request →
      request.method = bytes "CONNECT" → TunnelEnds e) :
    ∃ n, ∀ m, n ≤ m → ∃ w, (handle_connection env).run (World.start (e.upTo m)) = .ok () w := by
  have enough : ∀ᶠ m in Filter.atTop, ∀ request, Requested env (e.client_recvs 0) request →
      Enough env request (e.heard m) := by
    by_cases asked : ∃ request, Requested env (e.client_recvs 0) request
    · obtain ⟨request, asked⟩ := asked
      filter_upwards [eventually_willing client reserve,
        eventually_willing server request.request.length, eventually_hit client env request,
        eventually_met client server (origin request asked) (tunnel request asked)]
        with m room asked' hit met
      intro request' asked''
      obtain rfl := asked''.unique asked
      exact ⟨room, asked', hit, met.1, met.2⟩
    · exact Filter.Eventually.of_forall (fun m request own => absurd ⟨request, own⟩ asked)
  obtain ⟨n, all⟩ := Filter.eventually_atTop.mp (enough.and (eventually_willing client reserve))
  refine ⟨n + 1, fun m late => ?_⟩
  obtain ⟨enough, room⟩ := all m (Nat.le_of_succ_le late)
  have first : (e.upTo m).client_recvs = e.client_recvs 0 :: (firsts e.client_recvs m).tail := by
    obtain ⟨m, rfl⟩ := Nat.exists_eq_add_of_le' (Nat.le_of_add_left_le late)
    change firsts e.client_recvs (m + 1) = _
    rw [firsts_succ, List.tail_cons]
  exact returns_of_enough first room enough

/-! A request for a page, after which both sides close. -/

def plainEndless : Endless where
  client_sends := fun _ => ⟨8192, .other⟩
  client_recvs := fun i => if i = 0 then .data plainRequest else .closed
  server_sends := fun _ => ⟨8192, .other⟩
  server_recvs := fun i => if i = 0 then .data typedAnswer else .closed
  polls := fun _ => .timeout

theorem handler_returns_plain : ∃ env : Environment, ∃ n, ∀ m, n ≤ m →
    ∃ w, (handle_connection env).run (World.start (plainEndless.upTo m)) = .ok () w := by
  obtain ⟨iteration⟩ := nonempty_iteration
  have taken : ¬ (⟨8192, .other⟩ : SendOutcome).Interrupted := by decide
  have answering : Answering (fun _ => (⟨8192, .other⟩ : SendOutcome)) :=
    fun n => ⟨n, Nat.le_refl n, taken⟩
  have finished : Finished plainEndless.server_recvs := by
    refine ⟨1, fun j late => ?_⟩
    have ended : plainEndless.server_recvs j = .closed := if_neg (Nat.ne_of_gt late)
    rw [ended]
    rfl
  refine ⟨plainEnvironment iteration, handler_returns _ plainEndless answering answering
    (fun _ _ _ => finished) ?_⟩
  rintro request ⟨segment, read, parsed⟩ connect
  cases read
  cases parsed
  exact absurd connect (by decide)

end CachingProxy
