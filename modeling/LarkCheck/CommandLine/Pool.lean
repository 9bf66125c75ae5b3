/-!
# A pool of workers

Several workers share a list of tasks and a counter. In its turn a worker draws the
next number from the counter; it does the task of that number and keeps the result
with the number, or it is done if there is no such task. Which worker's turn it is
may vary. The results are put together by their numbers.
-/

namespace LarkCheck.CommandLine

structure Worker (β : Type) where
  done : Bool
  results : List (Nat × β)
deriving DecidableEq, Repr

structure Pool (β : Type) where
  next : Nat
  workers : List (Worker β)
deriving DecidableEq, Repr

namespace Pool

variable {α β : Type}

def start (count : Nat) : Pool β :=
  ⟨0, List.replicate count ⟨false, []⟩⟩

/-- What a worker does with the number that it drew. -/
def work (tasks : List α) (f : α → β) (number : Nat) (worker : Worker β) : Worker β :=
  match tasks[number]? with
  | some task => { worker with results := worker.results ++ [(number, f task)] }
  | none => { worker with done := true }

/-- The turn of one worker. -/
def turn (tasks : List α) (f : α → β) (pool : Pool β) (id : Nat) : Pool β :=
  match pool.workers[id]? with
  | none => pool
  | some worker =>
    if worker.done then pool
    else ⟨pool.next + 1, pool.workers.set id (work tasks f pool.next worker)⟩

/-- Turns in the given order. -/
def run (tasks : List α) (f : α → β) (count : Nat) (turns : List Nat) : Pool β :=
  turns.foldl (turn tasks f) (start count)

def isDone (pool : Pool β) : Bool :=
  pool.workers.all (·.done)

/-- The results in the order of their numbers, taken from one worker after the other. -/
def collect (size : Nat) (pool : Pool β) : List β :=
  let slots := (pool.workers.flatMap (·.results)).foldl
    (fun slots (number, result) => slots.set number (some result)) (List.replicate size none)
  slots.filterMap id

/-- Turns that go round until every worker is done. -/
def roundRobin (count size : Nat) : List Nat :=
  (List.range (size + 1)).flatMap fun _ => List.range count

/-- The results of all tasks, in their order. -/
def map (count : Nat) (f : α → β) (tasks : List α) : List β :=
  (run tasks f count (roundRobin count tasks.length)).collect tasks.length

end Pool

end LarkCheck.CommandLine
