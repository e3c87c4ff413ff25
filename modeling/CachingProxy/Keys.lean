import CachingProxy.Provenance

/-! Cache keys and origins. The key is hostname ++ uri: the port is not in it, and nothing marks
where the one ends and the other begins. -/
namespace CachingProxy
open Cpp

/-- Where a request goes: host, port and target. -/
def Request.origin (r : Request) : Bytes × Bytes × Bytes := (r.hostname, r.get_port, r.uri)

/-- The Host values and targets of two messages that are not kept apart by the key: one target at
two ports, or a target that goes on with the end of the other's host. -/
inductive Confused (a b : Message) : Prop where
  | port (host : Request.hostPart (a.host.getD []) = Request.hostPart (b.host.getD []))
      (target : a.target = b.target)
      (ports : Request.portPart (a.host.getD []) ≠ Request.portPart (b.host.getD []))
  | left (part : Bytes) (filled : part ≠ [])
      (host : Request.hostPart (a.host.getD []) = Request.hostPart (b.host.getD []) ++ part)
      (target : b.target = part ++ a.target)
  | right (part : Bytes) (filled : part ≠ [])
      (host : Request.hostPart (b.host.getD []) = Request.hostPart (a.host.getD []) ++ part)
      (target : a.target = part ++ b.target)

theorem fill_origin (raw : Bytes) (req : Message) : ((Request.new raw).fill req).origin =
    (Request.hostPart (req.host.getD []), Request.portPart (req.host.getD []), req.target) := by
  obtain ⟨host, port⟩ := Request.fill_host raw req
  simp only [Request.origin, host, port, Request.fill_uri]

/-- Equal keys stand for one origin exactly when the messages are not confused. -/
theorem fill_separated_iff (raw raw' : Bytes) (a b : Message) :
    (((Request.new raw).fill a).url = ((Request.new raw').fill b).url →
        ((Request.new raw).fill a).origin = ((Request.new raw').fill b).origin) ↔
      ¬ Confused a b := by
  rw [Request.fill_url, Request.fill_url, fill_origin, fill_origin]
  constructor
  · intro separated confused
    cases confused with
    | port host target ports =>
      have same := separated (by rw [host, target])
      exact ports (Prod.mk.inj (Prod.mk.inj same).2).1
    | left part filled host target =>
      have same := separated (by rw [host, target, List.append_assoc])
      have longer := congrArg List.length (host.symm.trans (Prod.mk.inj same).1)
      rw [List.length_append] at longer
      exact filled (List.length_eq_zero_iff.mp (by omega))
    | right part filled host target =>
      have same := separated (by rw [host, target, List.append_assoc])
      have longer := congrArg List.length (host.symm.trans (Prod.mk.inj same).1.symm)
      rw [List.length_append] at longer
      exact filled (List.length_eq_zero_iff.mp (by omega))
  · intro clear same
    -- one host begins with the other
    have equal (host : Request.hostPart (a.host.getD []) = Request.hostPart (b.host.getD []))
        (target : a.target = b.target) : Request.portPart (a.host.getD []) =
          Request.portPart (b.host.getD []) := by
      by_contra ports
      exact clear (.port host target ports)
    rcases List.append_eq_append_iff.mp same with ⟨part, host, target⟩ | ⟨part, host, target⟩
    · by_cases filled : part = []
      · subst filled
        rw [List.append_nil] at host
        rw [equal host.symm target, host, target, List.nil_append]
      · exact (clear (.right part filled host target)).elim
    · by_cases filled : part = []
      · subst filled
        rw [List.append_nil] at host
        rw [equal host target.symm, host, target, List.nil_append]
      · exact (clear (.left part filled host target)).elim

theorem not_confused_self (a : Message) : ¬ Confused a a := by
  have shorter {host part : Bytes} (filled : part ≠ []) (same : host = host ++ part) : False :=
    filled (List.self_eq_append_right.mp same)
  intro confused
  cases confused with
  | port host target ports => exact ports rfl
  | left part filled host target => exact shorter filled host
  | right part filled host target => exact shorter filled host

/-! ## Runs -/

/-- The parsed message of a GET. -/
def Job.get_message (job : Job) : Option Message :=
  match job.kernel.client_recvs with
  | .data segment :: _ =>
    (job.env.put segment.data).filter (fun req => req.method_string = bytes "GET")
  | _ => none

def Event.job : Event → Job
  | .look job => job
  | .put job _ _ => job

theorem Job.get_request_message {job : Job} {request : Request}
    (get : job.get_request = some request) :
    ∃ raw req, job.get_message = some req ∧ request = (Request.new raw).fill req := by
  obtain ⟨read, method⟩ := Option.filter_eq_some_iff.mp get
  obtain ⟨segment, rest, first, accepted⟩ := Job.request_eq_some read
  obtain ⟨req, parsed, rfl⟩ := (Request.parse_eq_ok_iff _ _ _).mp accepted
  refine ⟨segment.data, req, ?_, rfl⟩
  simp only [Job.get_message, first]
  exact Option.filter_eq_some_iff.mpr ⟨parsed, method⟩

/-- No two GETs of the run are confused. -/
def Unconfused (s : Proxy) : Prop :=
  ∀ e ∈ s.log, ∀ e' ∈ s.log, ∀ a b, e.job.get_message = some a → e'.job.get_message = some b →
    ¬ Confused a b

/-- Every hit of the run gives out what was fetched from the origin that is asked for. -/
def SameOrigin (s : Proxy) : Prop :=
  ∀ (before after : List Event) (job : Job), s.log = before ++ .look job :: after →
    ∀ (request : Request) (entry : CacheEntry), Hit job request entry →
      ∃ job' request', .put job' request.url entry ∈ before ∧ Fetched job' request' entry ∧
        request'.hostname = request.hostname ∧ request'.get_port = request.get_port ∧
        request'.uri = request.uri

theorem sameOrigin_of_unconfused {max_entries : Nat} {moves : List Move} {s : Proxy}
    (ran : (Proxy.start max_entries).run moves = some s) (clear : Unconfused s) : SameOrigin s := by
  intro before after job log request entry hit
  obtain ⟨job', put, mem⟩ := Proxy.hit_was_put ran log hit
  obtain ⟨request', same, fetched, -⟩ := fetched_of_put mem
  obtain ⟨raw, a, get, rfl⟩ := Job.get_request_message hit.get
  obtain ⟨raw', b, get', rfl⟩ := Job.get_request_message fetched.get
  have stored : .put job' _ entry ∈ s.log := log ▸ List.mem_append_left _ put
  have asked : .look job ∈ s.log := log ▸ List.mem_append_right _ List.mem_cons_self
  have origin := (fill_separated_iff raw' raw b a).mpr (clear _ stored _ asked b a get' get) same
  simp only [Request.origin, Prod.mk.injEq] at origin
  exact ⟨job', _, put, fetched, origin⟩

/-- The key keeps two accepted requests apart exactly when they are not confused; and in a run
without confused GETs every hit gives out what was fetched from the origin that is asked for. -/
theorem keys_separate_origins (put : Parser) (raw raw' : Bytes) (a b : Message) (r r' : Request)
    (parsed : put raw = some a) (parsed' : put raw' = some b)
    (accepted : Request.parse put (Request.new raw) = .ok r)
    (accepted' : Request.parse put (Request.new raw') = .ok r') :
    ((r.url = r'.url → r.hostname = r'.hostname ∧ r.get_port = r'.get_port ∧ r.uri = r'.uri) ↔
      ¬ Confused a b) ∧
    ∀ (max_entries : Nat) (moves : List Move) (s : Proxy),
      (Proxy.start max_entries).run moves = some s → Unconfused s → SameOrigin s := by
  refine ⟨?_, fun max_entries moves s ran clear => sameOrigin_of_unconfused ran clear⟩
  obtain ⟨req, hreq, rfl⟩ := (Request.parse_eq_ok_iff put raw r).mp accepted
  obtain ⟨req', hreq', rfl⟩ := (Request.parse_eq_ok_iff put raw' r').mp accepted'
  cases parsed.symm.trans hreq
  cases parsed'.symm.trans hreq'
  rw [← fill_separated_iff raw raw' a b]
  simp only [Request.origin, Prod.mk.injEq]

/-! One page asked for at two ports of a host. -/

def port80 : Segment := ⟨bytes "GET / HTTP/1.1\r\nHost: a:80\r\n\r\n", by decide, by decide⟩
def port8080 : Segment := ⟨bytes "GET / HTTP/1.1\r\nHost: a:8080\r\n\r\n", by decide, by decide⟩

def message80 : Message := ⟨bytes "GET", bytes "/", 11, some (bytes "a:80"), []⟩
def message8080 : Message := ⟨bytes "GET", bytes "/", 11, some (bytes "a:8080"), []⟩

def twoPorts : Parser := fun raw =>
  if raw = port80.data then some message80
  else if raw = port8080.data then some message8080
  else none

def portJob (iteration : Iteration) (segment : Segment) : Job where
  env := { plainEnvironment iteration with put := twoPorts }
  kernel := { plainKernel [.data bare, .closed] with client_recvs := [.data segment] }

def request80 : Request := (Request.new port80.data).fill message80
def request8080 : Request := (Request.new port8080.data).fill message8080

theorem port_get (iteration : Iteration) :
    (portJob iteration port80).get_request = some request80 ∧
      (portJob iteration port8080).get_request = some request8080 := ⟨rfl, rfl⟩

/-- The page of one port is given out for the other. -/
theorem port_hit (iteration : Iteration) : ∃ s entry,
    (Proxy.start 1).run (Proxy.inTurn (portJob iteration port80) (portJob iteration port8080)) =
      some s ∧
    s.log = [.look ((portJob iteration port80).answered none),
      .put ((portJob iteration port80).answered none) request80.url entry,
      .look ((portJob iteration port8080).answered (some entry))] ∧
    Hit ((portJob iteration port8080).answered (some entry)) request8080 entry := by
  have stored : ((portJob iteration port80).answered none).outcome.puts.map Prod.fst =
      [request80.url] := rfl
  exact Proxy.hit_inTurn (port_get iteration).1 (port_get iteration).2 (by decide) rfl stored
    (by decide) (by decide)

theorem keys_do_not_separate_ports :
    ¬ (∀ (put : Parser) (raw raw' : Bytes) (r r' : Request),
      Request.parse put (Request.new raw) = .ok r → Request.parse put (Request.new raw') = .ok r' →
      r.method = bytes "GET" → r'.method = bytes "GET" → r.url = r'.url →
      r.hostname = r'.hostname ∧ r.get_port = r'.get_port ∧ r.uri = r'.uri) ∧
    ¬ ∀ (max_entries : Nat) (moves : List Move) (s : Proxy),
      (Proxy.start max_entries).run moves = some s → SameOrigin s := by
  have different : request80.get_port ≠ request8080.get_port := by decide
  constructor
  · intro all
    have same := all twoPorts port80.data port8080.data request80 request8080 rfl rfl rfl rfl
      (by decide)
    exact different same.2.1
  · intro all
    obtain ⟨iteration⟩ := nonempty_iteration
    obtain ⟨s, entry, ran, log, hit⟩ := port_hit iteration
    obtain ⟨job', request', put, fetched, -, port, -⟩ :=
      all 1 _ s ran [_, _] [] _ log request8080 entry hit
    simp only [List.mem_cons, List.not_mem_nil, reduceCtorEq, Event.put.injEq, or_false,
      false_or] at put
    obtain ⟨rfl, -, -⟩ := put
    have asked : some request80 = some request' := (port_get iteration).1.symm.trans fetched.get
    cases asked
    exact different port

theorem keys_separate_origins_same_port :
    ((request80.url = request80.url → request80.hostname = request80.hostname ∧
        request80.get_port = request80.get_port ∧ request80.uri = request80.uri) ↔
      ¬ Confused message80 message80) ∧
    ∃ (s : Proxy) (entry : CacheEntry) (iteration : Iteration), SameOrigin s ∧
      .look ((portJob iteration port80).answered (some entry)) ∈ s.log := by
  obtain ⟨separate, runs⟩ := keys_separate_origins twoPorts port80.data port80.data message80 message80
    request80 request80 rfl rfl rfl rfl
  refine ⟨separate, ?_⟩
  obtain ⟨iteration⟩ := nonempty_iteration
  have get := (port_get iteration).1
  have stored : ((portJob iteration port80).answered none).outcome.puts.map Prod.fst =
      [request80.url] := rfl
  obtain ⟨s, entry, ran, log, -⟩ := Proxy.hit_inTurn get get rfl rfl stored (by decide) (by decide)
  have message : ∀ e ∈ s.log, e.job.get_message = some message80 := by
    intro e mem
    simp only [log, List.mem_cons, List.not_mem_nil, or_false] at mem
    rcases mem with rfl | rfl | rfl <;> rfl
  have clear : Unconfused s := by
    intro e mem e' mem' a b ha hb
    cases (message e mem).symm.trans ha
    cases (message e' mem').symm.trans hb
    exact not_confused_self message80
  exact ⟨s, entry, iteration, runs 1 _ s ran clear, by simp [log]⟩

end CachingProxy
