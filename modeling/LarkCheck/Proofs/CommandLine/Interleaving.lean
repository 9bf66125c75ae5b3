import LarkCheck.CommandLine.Run
import LarkCheck.Proofs.Report.Accountable
import Mathlib.Data.List.Count
import Mathlib.Data.List.Nodup
import Mathlib.Data.List.Perm.Basic

/-!
# The turns of the workers do not matter

At any time the workers of a pool hold the results of the tasks whose numbers were
drawn, each one once. So when all of them are done, the results are those of all
tasks, whatever the turns were. What is written about several files is what is
written about each of them alone, one after the other, with a count of the failures.
-/

namespace LarkCheck.CommandLine

open Source (Files Failure)

/-- Results with their places in the list. -/
def numbered {β : Type} (results : List β) : List (Nat × β) :=
  results.zipIdx.map Prod.swap

section Numbered

variable {β : Type} (results : List β)

theorem length_numbered : (numbered results).length = results.length := by
  simp [numbered]

theorem numbered_concat (result : β) :
    numbered (results ++ [result]) = numbered results ++ [(results.length, result)] := by
  simp [numbered, List.zipIdx_append]

theorem mem_numbered {results : List β} {entry : Nat × β} :
    entry ∈ numbered results ↔ results[entry.1]? = some entry.2 := by
  rcases entry with ⟨number, result⟩
  simp [numbered, List.mem_zipIdx_iff_getElem?]

/-- Entries that are put into slots by their numbers fill all of them, in whatever order they
come. -/
theorem foldl_set_of_mem {entries : List (Nat × β)}
    (hentries : ∀ entry ∈ entries, results[entry.1]? = some entry.2)
    (slots : List (Option β)) (hlength : slots.length = results.length)
    (hslots : ∀ number result, results[number]? = some result →
      slots[number]? = some (some result) ∨ (number, result) ∈ entries) :
    entries.foldl (fun slots (number, result) => slots.set number (some result)) slots =
      results.map some := by
  induction entries generalizing slots with
  | nil =>
    apply List.ext_getElem?
    intro number
    cases hresult : results[number]? with
    | none =>
      have hout : slots.length ≤ number := hlength ▸ List.getElem?_eq_none_iff.1 hresult
      simp [List.getElem?_eq_none hout, hresult]
    | some result =>
      rcases hslots number result hresult with hslot | hmem
      · simp [hslot, hresult]
      · cases hmem
  | cons entry entries ih =>
    rcases entry with ⟨first, value⟩
    rw [List.foldl_cons]
    refine ih (fun entry hmem => hentries entry (.tail _ hmem)) _
      (by rw [List.length_set, hlength]) ?_
    intro number result hresult
    by_cases hfirst : number = first
    · subst hfirst
      have hvalue : some value = some result := (hentries _ (.head _)).symm.trans hresult
      have hin : number < slots.length := hlength ▸ (List.getElem?_eq_some_iff.1 hresult).1
      exact .inl (by rw [List.getElem?_set_self hin, hvalue])
    · rw [List.getElem?_set_ne (Ne.symm hfirst)]
      rcases hslots number result hresult with hslot | hmem
      · exact .inl hslot
      · rcases List.mem_cons.1 hmem with heq | hlater
        · cases heq
          exact absurd rfl hfirst
        · exact .inr hlater

end Numbered

namespace Pool

variable {α β : Type} (tasks : List α) (f : α → β)

/-- A turn of a worker that is done, or of none, changes nothing. Any other takes the next number
and gives the worker its work. -/
theorem turn_cases (pool : Pool β) (id : Nat) :
    (turn tasks f pool id = pool ∧
      ∀ worker, pool.workers[id]? = some worker → worker.done = true) ∨
    ∃ worker, pool.workers[id]? = some worker ∧ worker.done = false ∧ turn tasks f pool id =
      ⟨pool.next + 1, pool.workers.set id (work tasks f pool.next worker)⟩ := by
  unfold turn
  split
  · rename_i hnone
    refine .inl ⟨rfl, fun worker hworker => ?_⟩
    rw [hnone] at hworker
    cases hworker
  · rename_i worker hworker
    cases hdone : worker.done with
    | true =>
      refine .inl ⟨rfl, fun worker' hworker' => ?_⟩
      cases hworker.symm.trans hworker'
      exact hdone
    | false => exact .inr ⟨worker, hworker, hdone, rfl⟩

/-- The workers hold the results of the numbers that were drawn, and one is done only when there
is no number left. -/
structure Sound (tasks : List α) (f : α → β) (pool : Pool β) : Prop where
  results_perm : (pool.workers.flatMap (·.results)).Perm
    (numbered ((tasks.take pool.next).map f))
  length_le : ∀ worker ∈ pool.workers, worker.done = true → tasks.length ≤ pool.next

theorem start_sound (count : Nat) : Sound tasks f (start count) := by
  refine ⟨?_, ?_⟩
  · have hnone : (start count : Pool β).workers.flatMap (·.results) = [] := by
      simp [start, List.flatMap_replicate]
    rw [hnone]
    exact .refl []
  · intro worker hmem hdone
    rw [List.eq_of_mem_replicate hmem] at hdone
    cases hdone

/-- What one worker adds to its results, all workers together add to theirs. -/
theorem flatMap_set_perm {workers : List (Worker β)} {id : Nat} {worker : Worker β}
    (hworker : workers[id]? = some worker) (worker' : Worker β) (added : List (Nat × β))
    (hadded : worker'.results = worker.results ++ added) :
    ((workers.set id worker').flatMap (·.results)).Perm
      (workers.flatMap (·.results) ++ added) := by
  obtain ⟨hid, hget⟩ := List.getElem?_eq_some_iff.1 hworker
  obtain ⟨before, after, hworkers, -, hset⟩ := List.exists_of_set hid
  rw [hget] at hworkers
  rw [hset, hworkers]
  simp only [List.flatMap_append, List.flatMap_cons, hadded, List.append_assoc]
  refine .append_left _ (.append_left _ ?_)
  exact List.perm_append_comm

theorem turn_sound {pool : Pool β} (h : Sound tasks f pool) (id : Nat) :
    Sound tasks f (turn tasks f pool id) := by
  obtain ⟨heq, -⟩ | ⟨worker, hworker, hbusy, heq⟩ := turn_cases tasks f pool id <;> rw [heq]
  · exact h
  cases htask : tasks[pool.next]? with
  | none =>
    -- every number was drawn before, so the worker is done and nothing is added
    have hout : tasks.length ≤ pool.next := List.getElem?_eq_none_iff.1 htask
    have htake : tasks.take (pool.next + 1) = tasks.take pool.next := by
      rw [List.take_of_length_le hout, List.take_of_length_le (by omega)]
    have hperm := flatMap_set_perm hworker (work tasks f pool.next worker) []
      (by simp [work, htask])
    refine ⟨?_, fun _ _ _ => Nat.le_succ_of_le hout⟩
    rw [htake]
    exact (hperm.trans (.of_eq (List.append_nil _))).trans h.results_perm
  | some task =>
    have hin : pool.next < tasks.length := (List.getElem?_eq_some_iff.1 htask).1
    have htake : tasks.take (pool.next + 1) = tasks.take pool.next ++ [task] := by
      simp [List.take_add_one, htask]
    have hlength : ((tasks.take pool.next).map f).length = pool.next := by
      rw [List.length_map, List.length_take, Nat.min_eq_left (by omega)]
    have hperm := flatMap_set_perm hworker (work tasks f pool.next worker)
      [(pool.next, f task)] (by simp [work, htask])
    refine ⟨?_, fun worker' hmem hdone => ?_⟩
    · rw [htake, List.map_append, List.map_singleton, numbered_concat, hlength]
      exact hperm.trans (h.results_perm.append_right _)
    · rcases List.mem_or_eq_of_mem_set hmem with hold | rfl
      · exact Nat.le_succ_of_le (h.length_le worker' hold hdone)
      · simp [work, htask, hbusy] at hdone

theorem run_sound (count : Nat) (turns : List Nat) : Sound tasks f (run tasks f count turns) :=
  List.foldlRecOn turns (turn tasks f) (start_sound tasks f count)
    fun _ h id _ => turn_sound tasks f h id

/-- Unless it is done, the worker of this id has one result for each turn that it had. -/
def Paced (pool : Pool β) (id turns : Nat) : Prop :=
  ∀ worker, pool.workers[id]? = some worker →
    worker.done = true ∨ worker.results.length = turns

/-- In its turn a worker that is not done gets one more result, or it is done. -/
theorem work_paced (number : Nat) (worker : Worker β) :
    (work tasks f number worker).done = true ∨
      (work tasks f number worker).results.length = worker.results.length + 1 := by
  unfold work
  split
  · exact .inr List.length_append
  · exact .inl rfl

theorem turn_paced {pool : Pool β} {id turns : Nat} (h : Paced pool id turns) (id' : Nat) :
    Paced (turn tasks f pool id') id (turns + if id' = id then 1 else 0) := by
  intro worker' hworker'
  obtain ⟨heq, hdone⟩ | ⟨worker, hworker, hbusy, heq⟩ := turn_cases tasks f pool id' <;>
    rw [heq] at hworker'
  · by_cases hid : id' = id
    · exact .inl (hdone worker' (hid ▸ hworker'))
    · rw [if_neg hid]
      exact h worker' hworker'
  · by_cases hid : id' = id
    · subst hid
      have hin : id' < pool.workers.length := (List.getElem?_eq_some_iff.1 hworker).1
      rw [List.getElem?_set_self hin] at hworker'
      cases hworker'
      have hresults := (h worker hworker).resolve_left (by simp [hbusy])
      rw [if_pos rfl, ← hresults]
      exact work_paced tasks f pool.next worker
    · rw [if_neg hid]
      rw [List.getElem?_set_ne hid] at hworker'
      exact h worker' hworker'

theorem foldl_turn_paced {pool : Pool β} {id drawn : Nat} (h : Paced pool id drawn)
    (turns : List Nat) :
    Paced (turns.foldl (turn tasks f) pool) id (drawn + turns.count id) := by
  induction turns generalizing pool drawn with
  | nil => exact h
  | cons id' turns ih =>
    have hrest := ih (turn_paced tasks f h id')
    rw [List.count_cons, Nat.add_comm (turns.count id), ← Nat.add_assoc]
    simpa using hrest

theorem run_paced (count : Nat) (turns : List Nat) (id : Nat) :
    Paced (run tasks f count turns) id (turns.count id) := by
  have hstart : Paced (start count : Pool β) id 0 := by
    intro worker hworker
    rw [List.eq_of_mem_replicate (List.mem_of_getElem? hworker)]
    exact .inr rfl
  have hrun := foldl_turn_paced tasks f hstart turns
  rwa [Nat.zero_add] at hrun

theorem length_workers_turn (pool : Pool β) (id : Nat) :
    (turn tasks f pool id).workers.length = pool.workers.length := by
  obtain ⟨heq, -⟩ | ⟨worker, -, -, heq⟩ := turn_cases tasks f pool id <;> rw [heq]
  exact List.length_set

theorem length_workers_run (count : Nat) (turns : List Nat) :
    (run tasks f count turns).workers.length = count :=
  List.foldlRecOn turns (turn tasks f) List.length_replicate
    fun pool h id _ => (length_workers_turn tasks f pool id).trans h

theorem length_results_le {workers : List (Worker β)} {worker : Worker β}
    (hmem : worker ∈ workers) :
    worker.results.length ≤ (workers.flatMap (·.results)).length := by
  obtain ⟨before, after, rfl⟩ := List.append_of_mem hmem
  simp only [List.flatMap_append, List.flatMap_cons, List.length_append]
  omega

/-- Nobody has more results than there are tasks, so one more turn is enough for each worker. -/
theorem isDone_run {count : Nat} {turns : List Nat}
    (h : ∀ id < count, tasks.length < turns.count id) :
    (run tasks f count turns).isDone = true := by
  rw [isDone, List.all_eq_true]
  intro worker hmem
  obtain ⟨id, hid, hget⟩ := List.mem_iff_getElem.1 hmem
  have hworker := List.getElem?_eq_some_iff.2 ⟨hid, hget⟩
  rw [length_workers_run] at hid
  rcases run_paced tasks f count turns id worker hworker with hdone | hresults
  · exact hdone
  · have hperm := (run_sound tasks f count turns).results_perm
    have hle : worker.results.length ≤ tasks.length := by
      calc worker.results.length
          ≤ ((run tasks f count turns).workers.flatMap (·.results)).length :=
            length_results_le hmem
        _ = (numbered ((tasks.take (run tasks f count turns).next).map f)).length :=
            hperm.length_eq
        _ = (tasks.take (run tasks f count turns).next).length := by
            rw [length_numbered, List.length_map]
        _ ≤ tasks.length := List.length_take_le' _ _
    have := h id hid
    omega

section Done

variable {tasks f} {count : Nat} (hcount : 0 < count) {turns : List Nat}
include hcount

theorem next_of_isDone (hdone : (run tasks f count turns).isDone = true) :
    tasks.length ≤ (run tasks f count turns).next := by
  have hin : 0 < (run tasks f count turns).workers.length := by
    rwa [length_workers_run]
  have hfirst := List.getElem_mem hin
  exact (run_sound tasks f count turns).length_le _ hfirst (List.all_eq_true.1 hdone _ hfirst)

theorem results_of_isDone (hdone : (run tasks f count turns).isDone = true) :
    ((run tasks f count turns).workers.flatMap (·.results)).Perm (numbered (tasks.map f)) := by
  have hperm := (run_sound tasks f count turns).results_perm
  rwa [List.take_of_length_le (next_of_isDone hcount hdone)] at hperm

theorem collect_of_isDone (hdone : (run tasks f count turns).isDone = true) :
    (run tasks f count turns).collect tasks.length = tasks.map f := by
  have hperm := results_of_isDone hcount hdone
  have hslots := foldl_set_of_mem (tasks.map f)
    (fun entry hmem => mem_numbered.1 (hperm.subset hmem)) (List.replicate tasks.length none)
    (by simp)
    fun number result hresult => .inr (hperm.symm.subset (mem_numbered.2 hresult))
  rw [collect, hslots]
  simp

end Done

theorem count_roundRobin {count size id : Nat} (hid : id < count) :
    (roundRobin count size).count id = size + 1 := by
  have hround : (List.range count).count id = 1 :=
    List.count_eq_one_of_mem List.nodup_range (List.mem_range.2 hid)
  simp [roundRobin, List.count_flatMap, Function.comp_def, hround]

theorem map_eq {count : Nat} (hcount : 0 < count) :
    map count f tasks = tasks.map f := by
  refine collect_of_isDone hcount (isDone_run tasks f fun id hid => ?_)
  rw [count_roundRobin hid]
  exact Nat.lt_succ_self _

end Pool

namespace Output

end Output

/-- Whether a file is not loaded, or its unit fails in some stage. -/
def fails (files : Files) (path : String) : Bool :=
  match Source.load files path with
  | .error _ => true
  | .ok text => !(compile path text).outcome.isOk

theorem conclude_eq (results : List (Except Failure Report)) :
    conclude results =
      ⟨if results.countP (!passed ·) = 0 then 0 else 1,
        (Output.concat (results.map present)).append
          (summary (results.countP (!passed ·)) results.length), none⟩ := by
  simp only [conclude]
  split <;> rfl

theorem conclude_exit (results : List (Except Failure Report)) :
    (conclude results).exit = 0 ↔ ∀ result ∈ results, passed result = true := by
  have hcount : (conclude results).exit = 0 ↔ results.countP (!passed ·) = 0 := by
    simp [conclude_eq]
  rw [hcount, List.countP_eq_zero]
  simp

theorem compileFiles_eq {workers : Nat} (hworkers : 0 < workers) (files : Files)
    {paths : List String} (hpaths : paths ≠ []) :
    compileFiles workers files paths = conclude (paths.map (compileFile files)) := by
  rw [compileFiles, Pool.map_eq _ _ hworkers, if_neg]
  simpa using hpaths

theorem compileFiles_singleton_succeeded {workers : Nat} (hworkers : 0 < workers) (files : Files)
    (path : String) :
    (compileFiles workers files [path]).succeeded = passed (compileFile files path) := by
  rw [compileFiles_eq hworkers files (List.cons_ne_nil path []), Bool.eq_iff_iff,
    Outcome.succeeded, decide_eq_true_eq, conclude_exit]
  simp

end LarkCheck.CommandLine
