import LayeredConfig.Loader.Views
import Mathlib.Logic.Function.Basic

/-!
# Threads that share a loader

Several threads may ask one loader for its views. What is remembered is looked up without a lock
first. Only a thread that finds nothing takes the loader's lock, looks again, and computes the view
if there is still nothing. The lock may be taken again by the thread that holds it, because the
computation of a view asks for other views on its way.

`Loader.Move` is one atomic step of one thread: a look-up, taking the lock, an action of a
computation, the end of a computation, storing, giving the lock back. Which thread takes the next
step is left open (`System.Step`).
-/

namespace LayeredConfig

/-! ## Views and how they are computed -/

/-- The views of a loader by name. -/
inductive ViewName where
  | path
  | data
  | config
  | early
  | databases
deriving DecidableEq, Repr, Inhabited

namespace ViewName

/-- What a view gives. -/
abbrev Result : ViewName → Type
  | .path => String
  | .data => NodeId
  | .config => NodeId
  | .early => NodeId
  | .databases => DatabaseSettings

/-- Where the view is remembered. -/
def view : (v : ViewName) → View v.Result
  | .path => .path
  | .data => .data
  | .config => .config
  | .early => .early
  | .databases => .databases

/-- The text that the view is remembered under. -/
def title : ViewName → String
  | .path => "config_file_path"
  | .data => "config_data"
  | .config => "config"
  | .early => "early_config"
  | .databases => "database_configs"

/-- What is remembered of the view. -/
abbrev known (v : ViewName) (m : Memo) : Option v.Result := v.view.known m

end ViewName

/-- A computation as one thread runs it: by itself it acts in the world, and on the way it asks the
loader for views. -/
inductive Routine (α : Type) : Type 1 where
  | done (a : α)
  | fail (f : Failure)
  | act {β : Type} (x : Action β) (rest : β → Routine α)
  | ask (v : ViewName) (rest : v.Result → Routine α)

namespace Loader

/-- Builds the configuration of an environment. -/
def loading (l : Loader) (environment : Value) : Routine NodeId :=
  .ask .data fun data ↦
  .act (onMemory (mergeSections environment data)) fun n ↦
  .act (l.derive n) fun _ ↦
  .act (l.validate environment n) fun _ ↦
  .act (onMemory (Node.freeze n)) fun _ ↦
  .act (onMemory (truthyValue environment)) fun named ↦
  .ask .path fun path ↦
  .act (record .info "config_loaded"
    [("environment", if named then environment else .text "early"), ("path", .text path)]) fun _ ↦
  .done n

/-- What computes a view that is not remembered. -/
def factory (l : Loader) : (v : ViewName) → Routine v.Result
  | .path => .act l.discover .done
  | .data => .ask .path fun path ↦ .act (l.readFrom path) .done
  | .config => .act l.currentEnvironment l.loading
  | .early => l.loading .null
  | .databases =>
    .ask .data fun data ↦
    .act (onMemory (databaseBlock data (.text commonSection))) fun common ↦
    .act (onMemory (collectDatabases data common [] l.databaseEnvironments)) .done

end Loader

/-! ## The lock -/

/-- Threads by number. -/
abbrev ThreadId := Nat

/-- A lock that its owner may take again. -/
inductive Lock where
  | free
  /-- Beside the first time it was taken again so often. -/
  | held (owner : ThreadId) (again : Nat)
deriving DecidableEq, Repr, Inhabited

namespace Lock

/-- How often the thread has taken the lock and not given it back. -/
def count : Lock → ThreadId → Nat
  | .free, _ => 0
  | .held owner again, t => if t = owner then again + 1 else 0

/-- Takes the lock, unless another thread holds it. -/
def acquire (t : ThreadId) : Lock → Option Lock
  | .free => some (.held t 0)
  | .held owner again => if t = owner then some (.held owner (again + 1)) else none

/-- Gives the lock back once. Only the owner can. -/
def release (t : ThreadId) : Lock → Option Lock
  | .free => none
  | .held owner again =>
    if t = owner then
      match again with
      | 0 => some .free
      | again + 1 => some (.held owner again)
    else none

end Lock

/-! ## Threads -/

/-- Where a thread stands in a call of a view. -/
inductive Phase (α : Type) : Type 1 where
  /-- About to look up what is remembered, without the lock. -/
  | looking
  /-- About to take the lock. -/
  | waiting
  /-- About to look again, with the lock. -/
  | checking
  /-- Inside the factory. -/
  | computing (r : Routine α)
  /-- About to store what the factory has given. -/
  | storing (a : α)
  /-- About to read what is stored. -/
  | fetching
  /-- About to give the lock back and to leave with this outcome. -/
  | leaving (outcome : Except Failure α)

/-- The factories that wait for the outcome of a call of the view, the innermost first. -/
inductive Callers : ViewName → Type 1 where
  | outermost {v : ViewName} : Callers v
  | inside {v : ViewName} (caller : ViewName) (rest : v.Result → Routine caller.Result)
      (callers : Callers caller) : Callers v

/-- What a thread is doing. -/
inductive Thread : Type 1 where
  | idle
  | running (v : ViewName) (phase : Phase v.Result) (callers : Callers v)

/-- Hands the outcome of a call to the factory that waits for it. A failure is not caught there. -/
def Callers.resume {v : ViewName} : Callers v → Except Failure v.Result → Thread
  | .outermost, _ => .idle
  | .inside caller rest callers, .ok a => .running caller (.computing (rest a)) callers
  | .inside caller _ callers, .error f => .running caller (.computing (.fail f)) callers

/-- What is told of a step. -/
inductive Occurrence where
  /-- A run of the factory of the view has given a result. -/
  | succeeded (t : ThreadId) (v : ViewName) (a : v.Result)
  /-- A run of the factory of the view has failed. -/
  | raised (t : ThreadId) (v : ViewName) (f : Failure)
  | stored (t : ThreadId) (v : ViewName) (a : v.Result)
  /-- A call of the view has ended. -/
  | returned (t : ThreadId) (v : ViewName) (outcome : Except Failure v.Result)

/-- What a step of a thread leaves. -/
structure Turn : Type 1 where
  world : World
  lock : Lock
  thread : Thread
  occurrence : Option Occurrence

namespace Loader

/-- Remembers a view. -/
def store (l : Loader) (v : ViewName) (a : v.Result) (w : World) : World :=
  { w with memos := w.memos.modify l.number (v.view.keep a) }

/-- **One step of a thread** in the world and with the lock as they are. -/
inductive Move (l : Loader) (t : ThreadId) (w : World) (k : Lock) : Thread → Turn → Prop
  /-- The look-up without the lock finds the view. -/
  | found {v : ViewName} {a : v.Result} {callers : Callers v}
      (h : v.known (w.memo l.number) = some a) :
      Move l t w k (.running v .looking callers)
        ⟨w, k, callers.resume (.ok a), some (.returned t v (.ok a))⟩
  | missed {v : ViewName} {callers : Callers v} (h : v.known (w.memo l.number) = none) :
      Move l t w k (.running v .looking callers) ⟨w, k, .running v .waiting callers, none⟩
  /-- The lock is taken, or taken again. -/
  | acquired {v : ViewName} {callers : Callers v} {k' : Lock} (h : k.acquire t = some k') :
      Move l t w k (.running v .waiting callers) ⟨w, k', .running v .checking callers, none⟩
  /-- The look-up with the lock finds the view. -/
  | present {v : ViewName} {a : v.Result} {callers : Callers v}
      (h : v.known (w.memo l.number) = some a) :
      Move l t w k (.running v .checking callers) ⟨w, k, .running v .fetching callers, none⟩
  | entered {v : ViewName} {callers : Callers v} (h : v.known (w.memo l.number) = none) :
      Move l t w k (.running v .checking callers)
        ⟨w, k, .running v (.computing (l.factory v)) callers, none⟩
  /-- An action of the factory. -/
  | acted {v : ViewName} {callers : Callers v} {β : Type} {x : Action β}
      {rest : β → Routine v.Result} {b : β} {w' : World} (h : x w = .ok b w') :
      Move l t w k (.running v (.computing (.act x rest)) callers)
        ⟨w', k, .running v (.computing (rest b)) callers, none⟩
  | failed {v : ViewName} {callers : Callers v} {β : Type} {x : Action β}
      {rest : β → Routine v.Result} {f : Failure} {w' : World} (h : x w = .error f w') :
      Move l t w k (.running v (.computing (.act x rest)) callers)
        ⟨w', k, .running v (.computing (.fail f)) callers, none⟩
  /-- The factory asks for another view. -/
  | asked {v u : ViewName} {callers : Callers v} {rest : u.Result → Routine v.Result} :
      Move l t w k (.running v (.computing (.ask u rest)) callers)
        ⟨w, k, .running u .looking (.inside v rest callers), none⟩
  | succeeded {v : ViewName} {callers : Callers v} {a : v.Result} :
      Move l t w k (.running v (.computing (.done a)) callers)
        ⟨w, k, .running v (.storing a) callers, some (.succeeded t v a)⟩
  | raised {v : ViewName} {callers : Callers v} {f : Failure} :
      Move l t w k (.running v (.computing (.fail f)) callers)
        ⟨w, k, .running v (.leaving (.error f)) callers, some (.raised t v f)⟩
  | stored {v : ViewName} {callers : Callers v} {a : v.Result} :
      Move l t w k (.running v (.storing a) callers)
        ⟨l.store v a w, k, .running v .fetching callers, some (.stored t v a)⟩
  | fetched {v : ViewName} {a : v.Result} {callers : Callers v}
      (h : v.known (w.memo l.number) = some a) :
      Move l t w k (.running v .fetching callers)
        ⟨w, k, .running v (.leaving (.ok a)) callers, none⟩
  /-- What was there is there no more. -/
  | vanished {v : ViewName} {callers : Callers v} (h : v.known (w.memo l.number) = none) :
      Move l t w k (.running v .fetching callers)
        ⟨w, k, .running v (.leaving (.error (.missingItem (.scalar (.text v.title))))) callers, none⟩
  | released {v : ViewName} {callers : Callers v} {outcome : Except Failure v.Result} {k' : Lock}
      (h : k.release t = some k') :
      Move l t w k (.running v (.leaving outcome) callers)
        ⟨w, k', callers.resume outcome, some (.returned t v outcome)⟩

end Loader

/-! ## Systems -/

/-- A world with a loader's lock and the threads that share the loader. -/
structure System : Type 1 where
  world : World
  lock : Lock
  threads : ThreadId → Thread

/-- What the loader of the given number remembers is the same. All else may have changed. -/
structure World.Apart (number : Nat) (w w' : World) : Prop where
  size_le : w.memos.size ≤ w'.memos.size
  memo_eq : w'.memo number = w.memo number

namespace System

/-- The system in which nobody has asked for anything. -/
def start (w : World) : System := ⟨w, .free, fun _ ↦ .idle⟩

/-- The system after a step of a thread. -/
def take (s : System) (t : ThreadId) (turn : Turn) : System :=
  ⟨turn.world, turn.lock, Function.update s.threads t turn.thread⟩

/-- One step of a system, with what is told of it. -/
inductive Step (l : Loader) (s : System) : Option Occurrence → System → Prop
  /-- A thread that has nothing to do asks for a view. -/
  | call (t : ThreadId) (v : ViewName) (h : s.threads t = .idle) :
      Step l s none { s with threads := Function.update s.threads t (.running v .looking .outermost) }
  /-- A thread takes its next step. -/
  | move (t : ThreadId) {turn : Turn} (h : l.Move t s.world s.lock (s.threads t) turn) :
      Step l s turn.occurrence (s.take t turn)
  /-- Something else happens: files, the process environment, or the nodes of others change. -/
  | outside {w : World} (h : World.Apart l.number s.world w) : Step l s none { s with world := w }

/-- The system can be reached from the start in the given world, and this was told on the way, the
latest first. -/
inductive Reachable (l : Loader) (w : World) : System → List Occurrence → Prop
  | start : Reachable l w (start w) []
  | step {s s' : System} {history : List Occurrence} {told : Option Occurrence}
      (h : Reachable l w s history) (hstep : Step l s told s') :
      Reachable l w s' (told.toList ++ history)

end System

end LayeredConfig
