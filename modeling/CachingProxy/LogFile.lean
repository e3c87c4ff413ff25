import CachingProxy.Cpp.Clients
import CachingProxy.Cpp.Progress
import CachingProxy.Cpp.Text

/-! The log file of log.hpp. Log::write puts a message, a line feed and a flush under a lock_guard;
the bytes reach the file one at a time, and any number of threads write. -/
namespace CachingProxy.LogFile
open Cpp SharedMutex

abbrev WriteBody := Body Bytes Unit

def put (c : UInt8) (k : WriteBody) : WriteBody := .write (fun file => file ++ [c]) k

/-- log_file_.get() << message -/
def insert (message : Bytes) (k : WriteBody) : WriteBody := message.foldr put k

/-- Log::write; endl is a line feed, and the flushes change nothing that a reader of the file sees
in the end. -/
def write (message : Bytes) : WriteBody := insert message (put 10 (.done ()))

/-- A lock_guard on a plain mutex is exclusive. -/
def underLock : Object Bytes Unit Bytes where
  shared _ := false
  body := write

/-- The file that whole messages make. -/
def lines (messages : List Bytes) : Bytes := messages.flatMap (fun message => message ++ [10])

@[simp] theorem lines_append (messages messages' : List Bytes) :
    lines (messages ++ messages') = lines messages ++ lines messages' := List.flatMap_append

theorem run_insert (message : Bytes) (k : WriteBody) (file : Bytes) :
    (insert message k).run file = k.run (file ++ message) := by
  induction message generalizing file with
  | nil => simp [insert]
  | cons c message ih =>
    change (insert message k).run (file ++ [c]) = _
    rw [ih, List.append_assoc]
    rfl

theorem run_write (message file : Bytes) :
    (write message).run file = some (file ++ (message ++ [10]), ()) := by
  rw [write, run_insert, ← List.append_assoc]
  rfl

theorem replay_write (file : Bytes) (messages : List Bytes) : ∃ answers,
    replay underLock file messages = some (file ++ lines messages, answers) := by
  induction messages generalizing file with
  | nil => exact ⟨[], by simp [replay, lines]⟩
  | cons message messages ih =>
    obtain ⟨answers, rest⟩ := ih (file ++ (message ++ [10]))
    refine ⟨() :: answers, ?_⟩
    have first : (underLock.body message).run file = some (file ++ (message ++ [10]), ()) :=
      run_write message file
    simp only [replay, first, Option.bind_eq_bind, Option.bind_some, rest]
    simp [lines]

/-- All that the body still does is to add bytes. -/
def Appends : WriteBody → Prop
  | .done _ => True
  | .act update next => ∀ file, (∃ c, update file = some (file ++ [c])) ∧ Appends (next file)

theorem appends_write (message : Bytes) : Appends (write message) := by
  induction message with
  | nil => exact fun file => ⟨⟨10, rfl⟩, trivial⟩
  | cons c message ih => exact fun file => ⟨⟨c, rfl⟩, ih⟩

theorem Appends.run {p : WriteBody} (h : Appends p) {file file' : Bytes} {r : Unit}
    (ran : p.run file = some (file', r)) : file <+: file' := by
  induction p generalizing file with
  | done r =>
    cases ran
    exact List.prefix_refl _
  | act update next ih =>
    obtain ⟨⟨c, same⟩, rest⟩ := h file
    rw [Body.run, same, Option.bind_some] at ran
    exact (List.prefix_append _ _).trans (ih file rest ran)

/-- What is read back from whole lines. -/
theorem getlines_lines {messages : List Bytes} (clean : ∀ message ∈ messages, (10 : UInt8) ∉ message) :
    getlines (lines messages) = messages := by
  induction messages with
  | nil => rfl
  | cons message messages ih =>
    obtain ⟨here, rest⟩ := List.forall_mem_cons.mp clean
    have form : lines (message :: messages) = message ++ 10 :: lines messages := by simp [lines]
    rw [form, getlines_line here, ih rest]

theorem getlines_clean {file line : Bytes} (read : line ∈ getlines file) : (10 : UInt8) ∉ line := by
  induction file generalizing line with
  | nil => cases read
  | cons c file ih =>
    unfold getlines at read
    split at read
    · rcases List.mem_cons.mp read with rfl | read
      · exact List.not_mem_nil
      · exact ih read
    · rename_i other
      split at read
      · obtain rfl := List.mem_singleton.mp read
        exact fun mem => other (List.mem_singleton.mp mem).symm
      · rename_i l ls rest
        rw [rest] at ih
        rcases List.mem_cons.mp read with rfl | read
        · intro mem
          rcases List.mem_cons.mp mem with same | mem
          · exact other same.symm
          · exact ih List.mem_cons_self mem
        · exact ih (List.mem_cons_of_mem _ read)

section threads

variable {τ : Type} [DecidableEq τ] {old : List Bytes}
  {c : Config τ Bytes Unit Bytes}

theorem inv_writes (reach : Relation.ReflTransGen (Step underLock) (Config.start (lines old)) c) :
    ∃ answers, Inv underLock (lines old) c (lines (old ++ c.ops)) answers := by
  have total : ∀ messages, (replay underLock (lines old) messages).isSome := by
    intro messages
    obtain ⟨answers, ran⟩ := replay_write (lines old) messages
    rw [ran]
    rfl
  obtain ⟨file, answers, inv⟩ := inv_reachable total (fun _ shared => by cases shared) reach
  obtain ⟨answers', ran⟩ := replay_write (lines old) c.ops
  have same : file = lines old ++ lines c.ops :=
    congrArg Prod.fst (Option.some.inj (inv.replayed.symm.trans ran))
  rw [lines_append, ← same]
  exact ⟨answers, inv⟩

/-- The lines of all calls but the last are in the file, whatever the last has done so far. -/
theorem earlier_lines (reach : Relation.ReflTransGen (Step underLock) (Config.start (lines old)) c)
    {before : List Bytes} {last : Bytes} (called : c.ops = before ++ [last]) :
    lines (old ++ before) <+: c.state := by
  induction reach generalizing before last with
  | refl => exact absurd called (by simp [Config.ops, Config.start])
  | tail reach step ih =>
    cases step with
    | call t op _ => exact ih called
    | lockShared t op _ mode _ => cases mode
    | lock t op _ _ free _ =>
      obtain ⟨answers, inv⟩ := inv_writes reach
      rw [Config.ops, List.map_append] at called
      obtain ⟨rfl, -⟩ := List.append_inj' called rfl
      exact (inv.quiet free) ▸ List.prefix_refl _
    | act t op i update next file here updated =>
      have adds : Appends (.act update next) := rest_reachable appends_write
        (fun update next adds file => (adds file).2) reach here
      obtain ⟨⟨byte, same⟩, -⟩ := adds (Config.state _)
      cases same.symm.trans updated
      exact (ih called).trans (List.prefix_append _ _)
    | unlockShared t op i r _ _ => exact ih called
    | unlock t op i r _ _ => exact ih called

/-- However the bytes of any number of threads' messages are written, the file holds the lines of
all messages but the last in the order in which they got the lock, and then a part of the last line.
Between calls the lines are whole, and a reader gets back the messages exactly if none has a line
feed. -/
theorem file_of_lines (reach : Relation.ReflTransGen (Step underLock) (Config.start (lines old)) c) :
    c.state <+: lines (old ++ c.ops) ∧
      (∀ before last, c.ops = before ++ [last] → lines (old ++ before) <+: c.state) ∧
      (c.writer = none → c.state = lines (old ++ c.ops)) ∧
      (c.writer = none → (getlines c.state = old ++ c.ops ↔
        ∀ message ∈ old ++ c.ops, (10 : UInt8) ∉ message)) := by
  obtain ⟨answers, inv⟩ := inv_writes reach
  refine ⟨?_, fun before last called => earlier_lines reach called, inv.quiet, fun free => ?_⟩
  · cases busy : c.writer with
    | none => exact inv.quiet busy ▸ List.prefix_refl _
    | some t =>
      obtain ⟨op, i, rest, here, -⟩ := (held_reachable reach).writer t busy
      obtain ⟨r, -, ran⟩ := (inv.inside t op i rest here).outcome
      have adds := rest_reachable appends_write (fun update next adds file => (adds file).2) reach here
      exact adds.run ran
  · rw [inv.quiet free]
    exact ⟨fun back message mem => getlines_clean (back ▸ mem), getlines_lines⟩

/-- A thread has written the letter of its line and not yet the line feed. -/
theorem file_of_lines_partial : ∃ c : Config Bool Bytes Unit Bytes,
    (c.state = lines [bytes "old"] ++ bytes "a" ∧ c.writer = some true) ∧
      c.state <+: lines ([bytes "old"] ++ c.ops) ∧
      (∀ before last, c.ops = before ++ [last] → lines ([bytes "old"] ++ before) <+: c.state) ∧
      (c.writer = none → c.state = lines ([bytes "old"] ++ c.ops)) ∧
      (c.writer = none → (getlines c.state = [bytes "old"] ++ c.ops ↔
        ∀ message ∈ [bytes "old"] ++ c.ops, (10 : UInt8) ∉ message)) := by
  have called := (Relation.ReflTransGen.refl (r := Step underLock)
    (a := Config.start (τ := Bool) (lines [bytes "old"]))).tail (.call true (bytes "a") rfl)
  have locked := called.tail (.lock true (bytes "a") rfl rfl rfl rfl)
  have written := locked.tail (.act true (bytes "a") 0 _ _ _ rfl rfl)
  exact ⟨_, ⟨rfl, rfl⟩, file_of_lines written⟩

/-! ## The lines of one connection -/

/-- What every line of a connection begins with. -/
def mark (id : Bytes) : Bytes := id ++ bytes ": "

/-- The lines of a file that begin with an id. -/
def linesOf (id : Bytes) (file : Bytes) : List Bytes :=
  (getlines file).filter (fun line => (mark id).isPrefixOf line)

/-- A line bears one id only. -/
theorem mark_unique {id id' line : Bytes} (plain : (58 : UInt8) ∉ id) (plain' : (58 : UInt8) ∉ id')
    (marked : mark id <+: line) (marked' : mark id' <+: line) : id = id' := by
  obtain ⟨text, rfl⟩ := marked
  obtain ⟨text', same⟩ := marked'
  have form (i t : Bytes) : mark i ++ t = i ++ 58 :: 32 :: t := by
    rw [mark, List.append_assoc]
    rfl
  rw [form, form] at same
  exact (byte_split plain' plain same).1.symm

end threads

section connections

variable {τ : Type} [DecidableEq τ] {id : τ → Bytes} {scripts : τ → List Bytes}

/-- Among the calls in the order of the lock, those that bear an id are its thread's. -/
theorem marked_calls (distinct : Function.Injective id) (plain : ∀ t, (58 : UInt8) ∉ id t)
    {calls : List (τ × Bytes)} (marked : ∀ call ∈ calls, mark (id call.1) <+: call.2) (t : τ) :
    (calls.map Prod.snd).filter (fun line => (mark (id t)).isPrefixOf line) = callsOf t calls := by
  induction calls with
  | nil => rfl
  | cons call calls ih =>
    obtain ⟨here, rest⟩ := List.forall_mem_cons.mp marked
    have own : (mark (id t)).isPrefixOf call.2 = decide (call.1 = t) := by
      rw [Bool.eq_iff_iff, List.isPrefixOf_iff_prefix, decide_eq_true_iff]
      constructor
      · exact fun other => distinct (mark_unique (plain _) (plain _) here other)
      · rintro rfl
        exact here
    unfold callsOf at ih ⊢
    rw [List.map_cons, List.filter_cons, List.filter_cons, ih rest, own]
    by_cases e : call.1 = t <;> simp [e]

/-- Any number of connections write their lines, each in its own order. Whenever no line is being
written, the file gives back for each id exactly what its connection has written so far, in its
order and whole. -/
theorem lines_of_connection {old : List Bytes} (distinct : Function.Injective id)
    (plain : ∀ t, (58 : UInt8) ∉ id t)
    (marked : ∀ t, ∀ message ∈ scripts t, mark (id t) <+: message ∧ (10 : UInt8) ∉ message)
    (older : ∀ line ∈ old, (10 : UInt8) ∉ line)
    {s : System τ Bytes Unit Bytes}
    (reach : Relation.ReflTransGen (Advance underLock)
      (System.start (lines old) (fun t => .script (scripts t))) s)
    (free : s.config.writer = none) {t : τ} (unmarked : ∀ line ∈ old, ¬ mark (id t) <+: line) :
    ∃ left, s.clients t = .script left ∧ linesOf (id t) s.config.state ++ left = scripts t := by
  have total : ∀ messages, (replay underLock (lines old) messages).isSome := by
    intro messages
    obtain ⟨answers, ran⟩ := replay_write (lines old) messages
    rw [ran]
    rfl
  obtain ⟨schedule, a, ran, explains⟩ :=
    linearize total (fun _ shared => by cases shared) reach
  have written : ∀ call ∈ s.config.log, call.2 ∈ scripts call.1 := by
    intro call mem
    obtain ⟨left, -, all⟩ := serve_scripts ran call.1
    rw [← all, explains.calls]
    refine List.mem_append_left _ (List.mem_map.mpr ⟨call, ?_, rfl⟩)
    exact List.mem_filter.mpr ⟨mem, decide_eq_true rfl⟩
  have clean : ∀ message ∈ old ++ s.config.ops, (10 : UInt8) ∉ message := by
    intro message mem
    rcases List.mem_append.mp mem with mem | mem
    · exact older message mem
    · obtain ⟨call, listed, rfl⟩ := List.mem_map.mp mem
      exact (marked _ _ (written call listed)).2
  obtain ⟨answers, inv⟩ := inv_writes (steps_of_advances reach)
  have whole : getlines s.config.state = old ++ s.config.ops := by
    rw [inv.quiet free, getlines_lines clean]
  have earlier : old.filter (fun line => (mark (id t)).isPrefixOf line) = [] := by
    rw [List.filter_eq_nil_iff]
    intro line mem bears
    exact unmarked line mem (List.isPrefixOf_iff_prefix.mp bears)
  have own : linesOf (id t) s.config.state = callsOf t s.config.log := by
    rw [linesOf, whole, List.filter_append, earlier, List.nil_append, Config.ops]
    exact marked_calls distinct plain (fun call mem => (marked _ _ (written call mem)).1) t
  obtain ⟨left, rest, all⟩ := serve_scripts ran t
  have place := explains.places t
  have now : s.clients t = a.clients t := by
    cases here : s.config.threads t with
    | idle =>
      rw [here] at place
      exact place.symm
    | waiting op =>
      rw [here] at place
      exact place.1.symm
    | inside op i left =>
      -- a thread inside would hold the lock
      have holds := (explains.inv.inside t op i left here).writer rfl
      cases free.symm.trans holds
  exact ⟨left, now.trans rest, by rw [own, ← explains.calls, all]⟩

end connections

end CachingProxy.LogFile
